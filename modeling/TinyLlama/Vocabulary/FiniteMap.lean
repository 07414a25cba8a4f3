import TinyLlama.Vocabulary.Table

namespace TinyLlama.Vocabulary
open Gguf

inductive TableOp where
  | put (key : Key) (value : Int)
  | get (key : Key)

-- A get walks as a put does; `.hang` is a walk without an end.
def tokenizerTableWalk (table : TokenizerTable) (key : Key) : Except Exit (Option Int) :=
  if table.cap = 0 then .ok none
  else
    match tokenizerTableFind table key with
    | none => .error .hang
    | some i => .ok ((table.entry i).map TokenizerEntry.value)

-- The table at the end, and what the gets returned.
def runTable (table : TokenizerTable) : List TableOp → Except Exit (TokenizerTable × List (Option Int))
  | [] => .ok (table,[])
  | .put key value :: rest => do
    let table ← tokenizerTablePut table key value
    runTable table rest
  | .get key :: rest => do
    let answer ← tokenizerTableWalk table key
    let (table,answers) ← runTable table rest
    pure (table,answer :: answers)

-- The finite map that a sequence of operations builds, by name.
def mapStep (map : Nat × List UInt8 → Option Int) : TableOp → Nat × List UInt8 → Option Int
  | .put key value => Function.update map (keyName key) (some value)
  | .get _ => map

def lastPuts (ops : List TableOp) : Nat × List UInt8 → Option Int := ops.foldl mapStep fun _ => none

def TableOp.names : TableOp → List (Nat × List UInt8)
  | .put key _ => [keyName key]
  | .get _ => []

def putNames (ops : List TableOp) : Finset (Nat × List UInt8) := (ops.flatMap TableOp.names).toFinset

def mapAnswers (before : List TableOp) : List TableOp → List (Option Int)
  | [] => []
  | .put key value :: rest => mapAnswers (before++[.put key value]) rest
  | .get key :: rest => lastPuts before (keyName key) :: mapAnswers (before++[.get key]) rest

theorem lastPuts_snoc (before : List TableOp) (op : TableOp) : lastPuts (before++[op]) = mapStep (lastPuts before) op := by
  rw [lastPuts,List.foldl_append]
  rfl

theorem putNames_snoc (before : List TableOp) (op : TableOp) : putNames before ⊆ putNames (before++[op]) := by
  intro k member
  rw [putNames,List.mem_toFinset,List.mem_flatMap] at member ⊢
  obtain ⟨o,listed,named⟩ := member
  exact ⟨o,List.mem_append_left _ listed,named⟩

theorem putNames_whole (before rest : List TableOp) : putNames before ⊆ putNames (before++rest) := by
  intro k member
  rw [putNames,List.mem_toFinset,List.flatMap_append,List.mem_append]
  exact .inl (List.mem_toFinset.mp member)

-- A table after the operations `before`, none of them past the first n names.
structure Mirrors (n : Nat) (t : TokenizerTable) (before : List TableOp) : Prop where
  ok : t.Ok
  large : n+1 < t.cap
  used : t.used ≤ n
  answers : ∀ k, tokenizerTableGet t k = lastPuts before (keyName k)
  named : ∀ e, Probe.Holds t.entry e → entryName e ∈ putNames before

variable {n : Nat} {t : TokenizerTable} {before : List TableOp}

theorem Mirrors.walk (mirrors : Mirrors n t before) (key : Key) :
    tokenizerTableWalk t key = .ok (lastPuts before (keyName key)) := by
  have room : t.used < t.cap := by have := mirrors.used; have := mirrors.large; omega
  obtain ⟨i,found⟩ := tokenizerTableFind_ends t mirrors.ok room key
  have positive : t.cap ≠ 0 := by omega
  have get := mirrors.answers key
  rw [tokenizerTableGet,if_neg positive,found,Option.bind_some] at get
  rw [tokenizerTableWalk,if_neg positive,found,← get]

-- Every entry of the new table answers a get, so it has a name that was put.
theorem Mirrors.put (mirrors : Mirrors n t before) (key : Key) (value : Int)
    (few : (putNames (before++[.put key value])).card ≤ n) :
    ∃ t', tokenizerTablePut t key value = .ok t' ∧ Mirrors n t' (before++[.put key value]) := by
  have large := mirrors.large
  have used := mirrors.used
  obtain ⟨t',done,ok,cap,grown,gets⟩ := tokenizerTablePut_spec t mirrors.ok (by omega) key value
  have room : t'.used < t'.cap := by omega
  have named : ∀ e, Probe.Holds t'.entry e → entryName e ∈ putNames (before++[.put key value]) := by
    intro e held
    have hit := (tokenizerTableGet_iff t' ok room e.key e.value).mpr ⟨e,held,rfl,rfl⟩
    rw [gets] at hit
    by_cases same : keyName e.key = keyName key
    · have added : keyName key ∈ putNames (before++[.put key value]) := by simp [putNames,TableOp.names]
      rwa [entryName,same]
    · rw [if_neg same] at hit
      obtain ⟨e',held',name',_⟩ := (tokenizerTableGet_iff t mirrors.ok (by omega) e.key e.value).mp hit
      have earlier := putNames_snoc before (.put key value) (mirrors.named e' held')
      rwa [name'] at earlier
  refine ⟨t',done,ok,by omega,?_,fun k => ?_,named⟩
  · have counted := Probe.occupied_le_names entryName home t'.cap ok.placed (by rw [ok.counted]; exact room) _ named
    rw [ok.counted] at counted
    exact counted.trans few
  · rw [gets,lastPuts_snoc,mapStep,Function.update_apply,mirrors.answers]

theorem Mirrors.get (mirrors : Mirrors n t before) (key : Key) : Mirrors n t (before++[.get key]) :=
  ⟨mirrors.ok,mirrors.large,mirrors.used,fun k => by rw [mirrors.answers,lastPuts_snoc,mapStep],
    fun e held => putNames_snoc before _ (mirrors.named e held)⟩

theorem runTable_mirrors (ops : List TableOp) : ∀ (t : TokenizerTable) (before : List TableOp), Mirrors n t before →
    (putNames (before++ops)).card ≤ n →
    ∃ t', runTable t ops = .ok (t',mapAnswers before ops) ∧ Mirrors n t' (before++ops) := by
  induction ops with
  | nil =>
    intro t before mirrors _
    exact ⟨t,rfl,by rwa [List.append_nil]⟩
  | cons op rest ih =>
    intro t before mirrors few
    have cut : before++op :: rest = before++[op]++rest := by rw [List.append_assoc]; rfl
    rw [cut] at few ⊢
    have now := (Finset.card_le_card (putNames_whole (before++[op]) rest)).trans few
    cases op with
    | put key value =>
      obtain ⟨t₁,done,mirrors₁⟩ := mirrors.put key value now
      obtain ⟨t',run,mirrors'⟩ := ih t₁ _ mirrors₁ few
      exact ⟨t',by simp only [runTable,done,run,Bind.bind,Except.bind,mapAnswers],mirrors'⟩
    | get key =>
      obtain ⟨t',run,mirrors'⟩ := ih t _ (mirrors.get key) few
      exact ⟨t',by simp only [runTable,mirrors.walk,run,Bind.bind,Except.bind,mapAnswers,pure,Except.pure],mirrors'⟩

-- Doubling either reaches a power of two past n or never ends.
theorem nextPow2From_large (n : Nat) : ∀ fuel p cap, (p = 0 ∨ ∃ j, p = 2^j) → nextPow2From n fuel p = some cap →
    n ≤ cap ∧ (cap = 0 ∨ ∃ m, cap = 2^m) := by
  intro fuel
  induction fuel with
  | zero => intro p cap _ run; simp [nextPow2From] at run
  | succ fuel ih =>
    intro p cap shape run
    rw [nextPow2From] at run
    by_cases small : p < n
    · rw [if_pos small] at run
      refine ih _ cap ?_ run
      rcases shape with rfl | ⟨j,rfl⟩
      · exact .inl rfl
      · rw [u64,← pow_succ']
        rcases Nat.lt_or_ge (j+1) 64 with low | high
        · exact .inr ⟨j+1,Nat.mod_eq_of_lt (Nat.pow_lt_pow_right (by decide) low)⟩
        · exact .inl (Nat.mod_eq_zero_of_dvd (pow_dvd_pow 2 high))
    · rw [if_neg small] at run
      obtain rfl := Option.some.inj run
      exact ⟨not_lt.mp small,shape⟩

theorem tokenizerTableInit_mirrors (small : n < 2^62) (made : tokenizerTableInit n = .ok t) : Mirrors n t [] := by
  have exact' : u64 (n*2+16) = n*2+16 := u64_of_lt (by omega)
  unfold tokenizerTableInit at made
  rw [exact'] at made
  cases pow : nextPow2 (n*2+16) with
  | none => simp [pow] at made
  | some cap =>
    simp only [pow] at made
    split at made
    · simp at made
    · obtain ⟨covers,shape⟩ := nextPow2From_large (n*2+16) 65 1 cap (.inr ⟨0,rfl⟩) pow
      obtain rfl := Except.ok.inj made
      have ok : (⟨fun _ => none,cap,0⟩ : TokenizerTable).Ok := by
        refine ⟨?_,Probe.placed_empty entryName home _,Probe.occupied_empty _⟩
        rcases shape with rfl | power
        · omega
        · exact power
      refine ⟨ok,by change n+1 < cap; omega,Nat.zero_le _,fun k => ?_,?_⟩
      · refine Option.eq_none_iff_forall_ne_some.mpr fun v there => ?_
        obtain ⟨e,⟨i,held⟩,_⟩ := (tokenizerTableGet_iff _ ok (by change 0 < cap; omega) k v).mp there
        simp at held
      · rintro e ⟨i,held⟩
        simp at held

theorem table_refines_map (n : Nat) (small : n < 2^62) (t : TokenizerTable) (made : tokenizerTableInit n = .ok t)
    (ops : List TableOp) (few : (putNames ops).card ≤ n) :
    ∃ t', runTable t ops = .ok (t',mapAnswers [] ops) := by
  obtain ⟨t',run,_⟩ := runTable_mirrors ops t [] (tokenizerTableInit_mirrors small made) few
  exact ⟨t',run⟩

def letterKey (c : UInt8) : Key := ⟨1,[c]⟩

def twoNames : List TableOp :=
  [.get (letterKey 97),.put (letterKey 97) 3,.put (letterKey 98) 4,.put (letterKey 97) 5,.get (letterKey 97),.get (letterKey 99)]

theorem twoNames_refine : ∃ t', runTable ⟨fun _ => none,32,0⟩ twoNames = .ok (t',[none,some 5,none]) :=
  table_refines_map 2 (by decide) ⟨fun _ => none,32,0⟩ rfl twoNames (by decide)

end TinyLlama.Vocabulary
