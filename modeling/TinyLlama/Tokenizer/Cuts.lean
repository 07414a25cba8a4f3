import TinyLlama.Tokenizer.Lossless

namespace TinyLlama.Tokenizer
open Gguf Vocabulary

-- One pass of the loop: a special token, or a chunk for the encoder.
inductive Cut where
  | special (bytes : List UInt8) (id : Nat)
  | chunk (bytes : List UInt8)
deriving Repr,DecidableEq

def specialAt (v : Vocab) (text : List UInt8) : Option (Int × Nat) := (matchSpecialToken v text).filter fun r => r.1 ≥ 0

def bpeCuts (v : Vocab) : Nat → List UInt8 → List Nat → List Cut
  | 0,_,_ => []
  | fuel+1,text,symbols =>
    if text = [] ∨ symbols.length ≥ bpeMaxSymbols then []
    else
      match specialAt v text with
      | some (id,len) => .special (text.take len) id.toNat :: bpeCuts v fuel (text.drop len) (symbols++[id.toNat])
      | none => .chunk (text.take (chunkLen text)) :: bpeCuts v fuel (text.drop (chunkLen text))
          (symbols++bpeEncodeChunk v (text.take (chunkLen text)) (bpeMaxSymbols-symbols.length))

def emitCut (v : Vocab) (symbols : List Nat) : Cut → List Nat
  | .special _ id => symbols++[id]
  | .chunk bytes => symbols++bpeEncodeChunk v bytes (bpeMaxSymbols-symbols.length)

theorem bpeLoop_cuts (v : Vocab) (fuel : Nat) (text : List UInt8) (symbols : List Nat) :
    bpeLoop v fuel text symbols = (bpeCuts v fuel text symbols).foldl (emitCut v) symbols := by
  induction fuel generalizing text symbols with
  | zero => rfl
  | succ fuel ih =>
    rw [bpeLoop,bpeCuts]
    by_cases stop : text = [] ∨ symbols.length ≥ bpeMaxSymbols
    · rw [if_pos stop,if_pos stop]
      rfl
    · rw [if_neg stop,if_neg stop]
      show (match specialAt v text with | some (id,len) => _ | none => _) = _
      cases specialAt v text with
      | none => exact ih _ _
      | some hit => exact ih _ _

section Chunks
variable {cat : Nat} {c : UInt8} {rest : List UInt8}

theorem drop_span (cat : Nat) (text : List UInt8) : text.drop (span cat text) = text.dropWhile fun c => charCategory c = cat := by
  induction text with
  | nil => rfl
  | cons c text ih =>
    by_cases here : charCategory c = cat
    · simpa [span,here] using ih
    · simp [span,here]

theorem span_cons (same : charCategory c = cat) : span cat (c :: rest) = span cat rest+1 := by
  simp [span,same]

theorem span_other (other : charCategory c ≠ cat) : span cat (c :: rest) = 0 := by
  simp [span,other]

theorem span_stop (cat : Nat) (text : List UInt8) : ∀ c ∈ (text.drop (span cat text)).head?,charCategory c ≠ cat := by
  intro c member
  have head := List.head?_dropWhile_not (fun c => decide (charCategory c = cat)) text
  rw [← drop_span,Option.mem_def.mp member] at head
  exact of_decide_eq_false head

theorem wordLen_word {lead : Nat} {text tail : List UInt8} {d : UInt8} (left : text.drop lead = d :: tail) (word : charCategory d ≠ 3) :
    wordLen lead text = lead+span (charCategory d) (d :: tail) := by
  rw [wordLen,left]
  dsimp only
  rcases charCategory_cases d with one | two | three | four
  · rw [one]; rfl
  · rw [two]; rfl
  · exact absurd three word
  · rw [four]; rfl

theorem contraction_letters (contraction : contractionLen (c :: rest) > 0) :
    c = 39 ∧ ∃ letters after,rest = letters++after ∧ letters ≠ [] ∧ (∀ d ∈ letters,charCategory d = 1) ∧
      contractionLen (c :: rest) = letters.length+1 := by
  have quote : c = 39 := by_contra fun other => by
    simp [contractionLen,other] at contraction
  subst quote
  refine ⟨rfl,?_⟩
  match rest with
  | [] => exact absurd contraction (by decide)
  | nxt :: tail =>
    unfold contractionLen at contraction ⊢
    by_cases short : nxt = 115 ∨ nxt = 116 ∨ nxt = 109 ∨ nxt = 100
    · refine ⟨[nxt],tail,rfl,List.cons_ne_nil _ _,fun d member => ?_,by simp [short]⟩
      obtain rfl := List.mem_singleton.mp member
      rcases short with rfl | rfl | rfl | rfl <;> rfl
    simp only [if_neg short] at contraction ⊢
    match tail with
    | [] => simp at contraction
    | e :: tail =>
      simp only [List.head?_cons,Option.some.injEq] at contraction ⊢
      refine ⟨[nxt,e],tail,rfl,List.cons_ne_nil _ _,?_,?_⟩
      · by_cases re : (nxt = 114 ∨ nxt = 118) ∧ e = 101
        · obtain ⟨rfl | rfl,rfl⟩ := re <;> exact List.forall_mem_cons.mpr ⟨rfl,List.forall_mem_singleton.mpr rfl⟩
        · rw [if_neg re] at contraction
          by_cases ll : nxt = 108 ∧ e = 108
          · obtain ⟨rfl,rfl⟩ := ll
            exact List.forall_mem_cons.mpr ⟨rfl,List.forall_mem_singleton.mpr rfl⟩
          · rw [if_neg ll] at contraction
            exact absurd contraction (lt_irrefl 0)
      · by_cases re : (nxt = 114 ∨ nxt = 118) ∧ e = 101
        · rw [if_pos re]
          rfl
        · rw [if_neg re] at contraction ⊢
          by_cases ll : nxt = 108 ∧ e = 108
          · rw [if_pos ll]
            rfl
          · rw [if_neg ll] at contraction
            exact absurd contraction (lt_irrefl 0)

theorem contractionLen_space (space : charCategory c = 3) : ¬contractionLen (c :: rest) > 0 := by
  intro contraction
  rw [(contraction_letters contraction).1] at space
  exact absurd space (by decide)

theorem wordLen_le {lead : Nat} {text : List UInt8} (inside : lead ≤ text.length) : wordLen lead text ≤ text.length := by
  unfold wordLen
  cases left : text.drop lead with
  | nil => exact inside
  | cons d tail =>
    have rest := span_le (if charCategory d = 1 then 1 else if charCategory d = 2 then 2 else 4) (d :: tail)
    rw [← left,List.length_drop,left] at rest
    dsimp only
    omega

theorem contractionLen_le (contraction : contractionLen (c :: rest) > 0) :
    contractionLen (c :: rest) ≤ rest.length+1 := by
  obtain ⟨_,letters,after,rfl,_,_,length⟩ := contraction_letters contraction
  rw [length,List.length_append]
  omega

theorem chunkLen_le (c : UInt8) (rest : List UInt8) : chunkLen (c :: rest) ≤ rest.length+1 := by
  have spaces := span_le 3 (c :: rest)
  unfold chunkLen
  by_cases contraction : contractionLen (c :: rest) > 0
  · rw [if_pos contraction]
    exact contractionLen_le contraction
  rw [if_neg contraction]
  dsimp only
  split
  · exact spaces
  · exact wordLen_le spaces

end Chunks

section Special
variable {v : Vocab}

theorem matchSpecialToken_none {text : List UInt8} (unmarked : ¬[60,124] <+: text) : matchSpecialToken v text = none := by
  unfold matchSpecialToken
  split
  · rfl
  · split
    · rename_i rest _
      exact absurd ⟨rest,rfl⟩ unmarked
    · rfl

theorem specialAt_none {c : UInt8} {rest : List UInt8} (other : c ≠ 60) : specialAt v (c :: rest) = none := by
  rw [specialAt,matchSpecialToken_none fun marked => other (List.cons_prefix_cons.mp marked).1.symm]
  rfl

theorem symbol_open {c : UInt8} (cat : charCategory c ≠ 4) : c ≠ 60 := fun same => cat (by rw [same]; rfl)

theorem foldl_last {β : Type} {f : Nat → Option β} {g : Option (β × Nat) → Nat → Option (β × Nat)}
    (hit : ∀ best len id,f len = some id → g best len = some (id,len)) (miss : ∀ best len,f len = none → g best len = best)
    (n : Nat) (best : Option (β × Nat)) (lo : Nat) :
    (∀ len,lo ≤ len → len < lo+n → f len = none) ∧ (List.range' lo n).foldl g best = best ∨
      ∃ len id,lo ≤ len ∧ len < lo+n ∧ f len = some id ∧ (∀ l,len < l → l < lo+n → f l = none) ∧
        (List.range' lo n).foldl g best = some (id,len) := by
  induction n with
  | zero => exact .inl ⟨fun len low high => by omega,rfl⟩
  | succ n ih =>
    rw [List.range'_concat,List.foldl_append,List.foldl_cons,List.foldl_nil,Nat.one_mul]
    cases last : f (lo+n) with
    | some id => exact .inr ⟨lo+n,id,by omega,by omega,last,fun l low high => by omega,hit _ _ id last⟩
    | none =>
      rw [miss _ _ last]
      cases ih with
      | inl unmatched =>
        refine .inl ⟨fun len low high => ?_,unmatched.2⟩
        by_cases end' : len = lo+n
        · rw [end',last]
        · exact unmatched.1 len low (by omega)
      | inr matched =>
        obtain ⟨len,id,low,high,found,later,kept⟩ := matched
        refine .inr ⟨len,id,low,by omega,found,fun l above below => ?_,kept⟩
        by_cases end' : l = lo+n
        · rw [end',last]
        · exact later l above (by omega)

theorem matchSpecialToken_cases {rest : List UInt8} (long : 3 ≤ (60 :: 124 :: rest).length) :
    (∀ len,2 ≤ len → len ≤ min (60 :: 124 :: rest).length 64 → vocabLookupLen v.tokens (60 :: 124 :: rest) len = none) ∧
        matchSpecialToken v (60 :: 124 :: rest) = none ∨
      ∃ len id,2 ≤ len ∧ len ≤ min (60 :: 124 :: rest).length 64 ∧ vocabLookupLen v.tokens (60 :: 124 :: rest) len = some id ∧
        (∀ l,len < l → l ≤ min (60 :: 124 :: rest).length 64 → vocabLookupLen v.tokens (60 :: 124 :: rest) l = none) ∧
        matchSpecialToken v (60 :: 124 :: rest) = some (id,len) := by
  unfold matchSpecialToken
  rw [if_neg (by omega)]
  refine (foldl_last (f:=vocabLookupLen v.tokens (60 :: 124 :: rest)) (fun best len id hit => ?_) (fun best len miss => ?_)
    (min (60 :: 124 :: rest).length 64-1) none 2).imp
    (fun unmatched => ⟨fun len low high => unmatched.1 len low (by omega),unmatched.2⟩) fun found => ?_
  · rw [hit]
  · rw [miss]
  · obtain ⟨len,id,low,high,hit,later,kept⟩ := found
    exact ⟨len,id,low,by omega,hit,fun l above below => later l above (by omega),kept⟩

theorem matchSpecialToken_some {text : List UInt8} {id : Int} {len : Nat} (matched : matchSpecialToken v text = some (id,len)) :
    2 ≤ len ∧ len ≤ text.length ∧ vocabLookupLen v.tokens text len = some id := by
  by_cases long : 3 ≤ text.length
  · by_cases marked : [60,124] <+: text
    · obtain ⟨rest,rfl⟩ := marked
      cases matchSpecialToken_cases (v:=v) long with
      | inl unmatched => cases unmatched.2.symm.trans matched
      | inr found =>
        obtain ⟨l,i,low,high,hit,_,kept⟩ := found
        cases kept.symm.trans matched
        exact ⟨low,high.trans (Nat.min_le_left _ _),hit⟩
    · rw [matchSpecialToken_none marked] at matched
      cases matched
  · unfold matchSpecialToken at matched
    rw [if_pos (Nat.lt_of_not_le long)] at matched
    cases matched

theorem matchSpecialToken_longest {rest : List UInt8} {id : Int} {len : Nat} (long : 3 ≤ (60 :: 124 :: rest).length)
    (low : 2 ≤ len) (high : len ≤ min (60 :: 124 :: rest).length 64) (hit : vocabLookupLen v.tokens (60 :: 124 :: rest) len = some id)
    (longest : ∀ l,len < l → l ≤ min (60 :: 124 :: rest).length 64 → vocabLookupLen v.tokens (60 :: 124 :: rest) l = none) :
    matchSpecialToken v (60 :: 124 :: rest) = some (id,len) := by
  cases matchSpecialToken_cases (v:=v) long with
  | inl unmatched =>
    rw [unmatched.1 len low high] at hit
    cases hit
  | inr found =>
    obtain ⟨l,i,above,below,found,later,kept⟩ := found
    rcases Nat.lt_trichotomy l len with less | same | more
    · rw [later len less high] at hit
      cases hit
    · subst same
      rw [hit] at found
      rw [kept,Option.some.inj found]
    · rw [longest l more below] at found
      cases found

theorem pass_moves {text : List UInt8} (some' : text ≠ []) :
    (∀ id len,specialAt v text = some (id,len) → (text.drop len).length < text.length) ∧ (text.drop (chunkLen text)).length < text.length := by
  have size := List.length_pos_of_ne_nil some'
  have moved := chunkLen_pos text some'
  refine ⟨fun id len matched => ?_,by rw [List.length_drop]; omega⟩
  have entry := matchSpecialToken_some (Option.eq_some_of_filter_eq_some matched)
  rw [List.length_drop]
  omega

theorem bpeCuts_enough (fuel : Nat) : ∀ (fuel' : Nat) (text : List UInt8) (symbols : List Nat),text.length ≤ fuel → text.length ≤ fuel' →
    bpeCuts v fuel text symbols = bpeCuts v fuel' text symbols := by
  induction fuel with
  | zero =>
    intro fuel' text symbols enough _
    obtain rfl := List.length_eq_zero_iff.mp (Nat.le_zero.mp enough)
    cases fuel' <;> simp [bpeCuts]
  | succ fuel ih =>
    intro fuel' text symbols enough enough'
    by_cases done : text = []
    · cases fuel' <;> simp [bpeCuts,done]
    · have size := List.length_pos_of_ne_nil done
      obtain ⟨matched,chunked⟩ := pass_moves (v:=v) done
      cases fuel' with
      | zero => omega
      | succ fuel' =>
        rw [bpeCuts,bpeCuts]
        split
        · rfl
        · cases hit : specialAt v text with
          | none =>
            dsimp only
            rw [ih fuel' _ _ (by omega) (by omega)]
          | some r =>
            have moved := matched r.1 r.2 hit
            dsimp only
            rw [ih fuel' _ _ (by omega) (by omega)]

theorem tokenizeBpe_cuts {fuel : Nat} {text : List UInt8} (enough : text.length ≤ fuel) (maxTokens : Nat) :
    tokenizeBpe v text maxTokens = ((bpeCuts v fuel text []).foldl (emitCut v) []).take maxTokens := by
  rw [tokenizeBpe,bpeLoop_cuts,bpeCuts_enough text.length fuel text [] le_rfl enough]

end Special

end TinyLlama.Tokenizer
