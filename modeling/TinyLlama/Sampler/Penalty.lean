import TinyLlama.Lib.Sweep
import TinyLlama.Machine

-- sampler.c: the repetition penalties. The arithmetic is exact; the count of a token is an `int`, kept as its 32 bits.
namespace TinyLlama.Sampler
open Finset

structure SampleParam (K : Type) where
  temperature : K
  topK : Nat
  topP : K
  minP : K
  repeatPenalty : K
  repeatLastN : Nat
  frequencyPenalty : K
  presencePenalty : K

section Stage
variable {K : Type} [Field K] [LinearOrder K]

def alreadySeen (history : Nat → Nat) (start j tid : Nat) : Bool := (List.range' start (j-start)).any fun k => history k == tid

def countFrom (history : Nat → Nat) (j nHistory tid : Nat) : Nat :=
  (nHistory-(j+1)).fold (fun k _ count => if history (j+1+k) = tid then u32 (count+1) else count) 1

def penalized (p : SampleParam K) (count : Int) (logit : K) : K :=
  (if logit ≤ 0 then logit*p.repeatPenalty else logit/p.repeatPenalty)-
    (count*p.frequencyPenalty+(if count > 0 then 1 else 0)*p.presencePenalty)

def penaltyRound (p : SampleParam K) (nVocab : Nat) (history : Nat → Nat) (nHistory start j : Nat) (logits : Nat → K) : Nat → K :=
  let tid := history j
  if tid ≥ nVocab then logits
  else if alreadySeen history start j tid then logits
  else Function.update logits tid (penalized p (i32 (countFrom history j nHistory tid)) (logits tid))

def windowStart (repeatLastN nHistory : Nat) : Nat := if nHistory > repeatLastN then nHistory-repeatLastN else 0

-- `none` is a NULL history.
def penaltyStage (p : SampleParam K) (nVocab : Nat) (history : Option (Nat → Nat)) (nHistory : Nat) (logits : Nat → K) : Nat → K :=
  if p.repeatPenalty ≠ 1 ∨ p.frequencyPenalty ≠ 0 ∨ p.presencePenalty ≠ 0 then
    match history with
    | none => logits
    | some history =>
      if p.repeatLastN > 0 ∧ nHistory > 0 then
        let start := windowStart p.repeatLastN nHistory
        (nHistory-start).fold (fun i _ logits => penaltyRound p nVocab history nHistory start (start+i) logits) logits
      else logits
  else logits

end Stage

-- How often a token occurs between two positions.
def occurrences (history : Nat → Nat) (start stop t : Nat) : Nat := ((Ico start stop).filter fun k => history k = t).card

def windowCount (history : Option (Nat → Nat)) (repeatLastN nHistory t : Nat) : Nat :=
  match history with
  | none => 0
  | some history => occurrences history (windowStart repeatLastN nHistory) nHistory t

section Counts
variable {history : Nat → Nat} {start j stop t : Nat}

theorem occurrences_none (history : Nat → Nat) (start t : Nat) : occurrences history start start t = 0 := by
  simp [occurrences]

theorem occurrences_succ (low : start ≤ j) :
    occurrences history start (j+1) t = occurrences history start j t+if history j = t then 1 else 0 := by
  have apart : j ∉ (Ico start j).filter fun k => history k = t := by simp
  rw [occurrences,← Finset.insert_Ico_right_eq_Ico_add_one low,filter_insert]
  split
  · rw [card_insert_of_notMem apart]
    rfl
  · rfl

theorem occurrences_append (low : start ≤ j) (high : j ≤ stop) :
    occurrences history start stop t = occurrences history start j t+occurrences history j stop t := by
  have apart : Disjoint ((Ico start j).filter fun k => history k = t) ((Ico j stop).filter fun k => history k = t) :=
    disjoint_filter_filter (Ico_disjoint_Ico_consecutive start j stop)
  rw [occurrences,← Ico_union_Ico_eq_Ico low high,filter_union,card_union_of_disjoint apart]
  rfl

theorem occurrences_le : occurrences history start stop t ≤ stop-start := by
  have all := card_filter_le (Ico start stop) fun k => history k = t
  rwa [Nat.card_Ico] at all

theorem alreadySeen_iff : alreadySeen history start j t = true ↔ 0 < occurrences history start j t := by
  rw [occurrences,card_pos,alreadySeen,List.any_eq_true]
  constructor
  · rintro ⟨k,within,same⟩
    rw [List.mem_range'_1] at within
    exact ⟨k,mem_filter.mpr ⟨mem_Ico.mpr (by omega),by simpa using same⟩⟩
  · rintro ⟨k,found⟩
    obtain ⟨within,same⟩ := mem_filter.mp found
    rw [mem_Ico] at within
    exact ⟨k,List.mem_range'_1.mpr (by omega),by simpa using same⟩

theorem countFrom_eq (history : Nat → Nat) (j nHistory t : Nat) :
    countFrom history j nHistory t = u32 (1+occurrences history (j+1) (j+1+(nHistory-(j+1))) t) := by
  unfold countFrom
  induction nHistory-(j+1) with
  | zero => rw [Nat.fold_zero,Nat.add_zero,occurrences_none]; rfl
  | succ n ih =>
    rw [Nat.fold_succ,ih,← Nat.add_assoc (j+1) n 1,occurrences_succ (by omega)]
    split
    · rw [← Nat.add_assoc]
      simp only [u32,Nat.mod_add_mod]
    · rfl

end Counts

section Rounds
variable {K : Type} [Field K] [LinearOrder K] {p : SampleParam K} {nVocab nHistory start : Nat} {history : Nat → Nat}

def penalizedBefore (p : SampleParam K) (nVocab : Nat) (history : Nat → Nat) (nHistory start j : Nat) (logits : Nat → K) : Nat → K :=
  fun t => if t < nVocab ∧ 0 < occurrences history start j t then
    penalized p (i32 (u32 (occurrences history start nHistory t))) (logits t) else logits t

theorem penaltyRound_before (low : start ≤ j) (below : j < nHistory) (logits : Nat → K) :
    penaltyRound p nVocab history nHistory start j (penalizedBefore p nVocab history nHistory start j logits) =
      penalizedBefore p nVocab history nHistory start (j+1) logits := by
  funext t
  unfold penaltyRound
  by_cases outside : history j ≥ nVocab
  · rw [if_pos outside]
    refine if_congr (and_congr_right fun inside => ?_) rfl rfl
    rw [occurrences_succ low,if_neg (by omega),Nat.add_zero]
  rw [if_neg outside]
  by_cases seen : alreadySeen history start j (history j) = true
  · have earlier := alreadySeen_iff.mp seen
    rw [if_pos seen]
    refine if_congr (and_congr_right fun _ => ?_) rfl rfl
    rw [occurrences_succ low]
    by_cases here : history j = t
    · rw [← here]
      omega
    · rw [if_neg here,Nat.add_zero]
  have first' : occurrences history start j (history j) = 0 := by
    rw [alreadySeen_iff] at seen
    omega
  rw [if_neg seen,Function.update_apply]
  by_cases here : t = history j
  · -- Nothing has changed this logit yet, and all its occurrences are counted now.
    have whole : 1+occurrences history (j+1) nHistory t = occurrences history start nHistory t := by
      have split : occurrences history start nHistory t =
          occurrences history start (j+1) t+occurrences history (j+1) nHistory t := occurrences_append (by omega) below
      rw [split,occurrences_succ low,here,first',if_pos rfl,Nat.zero_add]
    have fresh : penalizedBefore p nVocab history nHistory start j logits (history j) = logits t := by
      rw [penalizedBefore,first',if_neg (by omega),here]
    have counted : 0 < occurrences history start (j+1) t := by
      rw [occurrences_succ low,if_pos here.symm]
      omega
    rw [if_pos here,fresh,countFrom_eq,Nat.add_sub_cancel' below,← here,whole,penalizedBefore,if_pos ⟨by omega,counted⟩]
  · rw [if_neg here]
    refine if_congr (and_congr_right fun _ => ?_) rfl rfl
    rw [occurrences_succ low,if_neg fun same => here same.symm,Nat.add_zero]

theorem penaltyLoop_eq (logits : Nat → K) : ∀ n,start+n ≤ nHistory →
    n.fold (fun i _ logits => penaltyRound p nVocab history nHistory start (start+i) logits) logits =
      penalizedBefore p nVocab history nHistory start (start+n) logits := by
  intro n
  induction n with
  | zero =>
    intro _
    funext t
    rw [Nat.fold_zero,Nat.add_zero,penalizedBefore,occurrences_none,if_neg (by omega)]
  | succ n ih =>
    intro up
    rw [Nat.fold_succ,ih (by omega),penaltyRound_before (by omega) (by omega),Nat.add_assoc]

theorem windowStart_le (repeatLastN nHistory : Nat) : windowStart repeatLastN nHistory ≤ nHistory := by
  unfold windowStart
  split <;> omega

theorem penaltyStage_eq (p : SampleParam K) (nVocab : Nat) (history : Option (Nat → Nat)) (nHistory : Nat) (logits : Nat → K) (t : Nat) :
    penaltyStage p nVocab history nHistory logits t =
      if t < nVocab ∧ 0 < windowCount history p.repeatLastN nHistory t then
        penalized p (i32 (u32 (windowCount history p.repeatLastN nHistory t))) (logits t) else logits t := by
  unfold penaltyStage
  split
  · cases history with
    | none => simp [windowCount]
    | some history =>
      have start := windowStart_le p.repeatLastN nHistory
      dsimp only
      split
      · rw [penaltyLoop_eq logits _ (by omega),Nat.add_sub_cancel' start]
        rfl
      · next empty =>
        have none' : windowStart p.repeatLastN nHistory = nHistory := by
          unfold windowStart at start ⊢
          split <;> omega
        rw [windowCount,none',occurrences_none,if_neg (by omega)]
  · next neutral =>
    push Not at neutral
    obtain ⟨one,zero,zero'⟩ := neutral
    simp [penalized,one,zero,zero']

end Rounds

section Exactness
variable {K : Type} [Field K] [LinearOrder K] [IsStrictOrderedRing K]

theorem penalized_count (p : SampleParam K) (logit : K) {count : Nat} (some' : 0 < count) (narrow : count < 2^32) :
    penalized p (i32 (u32 count)) logit = (if logit ≤ 0 then logit*p.repeatPenalty else logit/p.repeatPenalty)-
        count*p.frequencyPenalty-p.presencePenalty ↔
      count < 2^31 ∨ 2^32*p.frequencyPenalty+p.presencePenalty = 0 := by
  rw [u32_of_lt narrow,penalized]
  generalize (if logit ≤ 0 then logit*p.repeatPenalty else logit/p.repeatPenalty) = scaled
  by_cases small : count < 2^31
  · have positive : ((count : Nat) : Int) > 0 := by omega
    rw [i32_of_lt small,if_pos positive,Int.cast_natCast]
    refine iff_of_true ?_ (.inl small)
    ring
  · have wrapped : i32 count = (count : Int)-2^32 := by
      rw [i32,Nat.mod_eq_of_lt narrow,if_neg small]
    have negative : ¬(i32 count > 0) := by omega
    rw [if_neg negative,wrapped]
    push_cast
    constructor
    · intro same
      refine .inr ?_
      linear_combination same
    · rintro (low | balanced)
      · exact absurd low small
      · linear_combination balanced

-- Each in-range token of the window, once, by its own count.
theorem penalties_once_iff (p : SampleParam K) (nVocab : Nat) (history : Option (Nat → Nat)) (nHistory : Nat) (logits : Nat → K)
    (narrow : nHistory < 2^32) :
    (∀ t,penaltyStage p nVocab history nHistory logits t =
      if t < nVocab ∧ 0 < windowCount history p.repeatLastN nHistory t then
        (if logits t ≤ 0 then logits t*p.repeatPenalty else logits t/p.repeatPenalty)-
          windowCount history p.repeatLastN nHistory t*p.frequencyPenalty-p.presencePenalty
      else logits t) ↔
    ∀ t < nVocab,windowCount history p.repeatLastN nHistory t < 2^31 ∨ 2^32*p.frequencyPenalty+p.presencePenalty = 0 := by
  refine forall_congr' fun t => ?_
  have bound : windowCount history p.repeatLastN nHistory t < 2^32 := by
    cases history with
    | none => exact Nat.two_pow_pos 32
    | some history =>
      exact lt_of_le_of_lt (occurrences_le.trans (Nat.sub_le _ _)) narrow
  rw [penaltyStage_eq]
  by_cases inside : t < nVocab
  · by_cases some' : 0 < windowCount history p.repeatLastN nHistory t
    · rw [if_pos ⟨inside,some'⟩,if_pos ⟨inside,some'⟩,penalized_count p _ some' bound]
      exact ⟨fun either _ => either,fun either => either inside⟩
    · rw [if_neg fun both => some' both.2,if_neg fun both => some' both.2]
      exact iff_of_true rfl fun _ => .inl (by omega)
  · rw [if_neg fun both => inside both.1,if_neg fun both => inside both.1]
    exact iff_of_true rfl fun within => absurd within inside

end Exactness

def mildParam : SampleParam ℚ := ⟨1,40,1,0,2,4,1,1⟩

-- Token 1 twice, and token 5 outside the vocabulary.
def shortHistory : Nat → Nat := fun k => [1,5,1,2].getD k 0

theorem shortHistory_penalized : penaltyStage mildParam 4 (some shortHistory) 4 (fun _ => 8) 1 = 8/2-2-1 ∧
    penaltyStage mildParam 4 (some shortHistory) 4 (fun _ => 8) 3 = 8 := by
  have once := (penalties_once_iff mildParam 4 (some shortHistory) 4 (fun _ => 8) (by decide)).mpr (by decide)
  exact ⟨(once 1).trans (by decide +kernel),(once 3).trans (by decide +kernel)⟩

def wholeWindow : SampleParam ℚ := ⟨1,40,1,0,1,2^32-1,1,0⟩

theorem longHistory_differs : ¬∀ (p : SampleParam ℚ) (nVocab : Nat) (history : Nat → Nat) (nHistory : Nat) (logits : Nat → ℚ),
    nHistory < 2^32 → ∀ t,penaltyStage p nVocab (some history) nHistory logits t =
      if t < nVocab ∧ 0 < windowCount (some history) p.repeatLastN nHistory t then
        (if logits t ≤ 0 then logits t*p.repeatPenalty else logits t/p.repeatPenalty)-
          windowCount (some history) p.repeatLastN nHistory t*p.frequencyPenalty-p.presencePenalty
      else logits t := by
  intro always
  have one := always wholeWindow 1 (fun _ => 0) (2^31) (fun _ => 0) (by decide) 0
  have all : windowCount (some fun _ => 0) wholeWindow.repeatLastN (2^31) 0 = 2^31 := by
    have start : windowStart wholeWindow.repeatLastN (2^31) = 0 := rfl
    rw [windowCount,start,occurrences,filter_true_of_mem fun _ _ => rfl,Nat.card_Ico,Nat.sub_zero]
  rw [penaltyStage_eq,all,if_pos (by decide),if_pos (by decide),penalized_count _ _ (by decide) (by decide)] at one
  rcases one with small | balanced
  · exact absurd small (by decide)
  · exact absurd balanced (by norm_num [wholeWindow])

end TinyLlama.Sampler
