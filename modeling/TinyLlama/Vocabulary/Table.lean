import TinyLlama.Lib.Probe
import TinyLlama.Gguf.Load

-- core.c: the open-addressing table, with utils.c's hash and capacity.
namespace TinyLlama.Vocabulary
open Gguf

structure TokenizerEntry where
  key : Key
  value : Int

-- `used` of an entry is that there is one.
structure TokenizerTable where
  entry : Nat → Option TokenizerEntry
  cap : Nat
  used : Nat

-- Past 2^63 the shift wraps to 0 and the loop never ends.
def nextPow2From (n : Nat) : Nat → Nat → Option Nat
  | 0,_ => none
  | fuel+1,p => if p < n then nextPow2From n fuel (u64 (2*p)) else some p

def nextPow2 (n : Nat) : Option Nat := nextPow2From n 65 1

def hashBytes (bytes : List UInt8) : Nat :=
  bytes.foldl (fun h b => u64 ((h ^^^ b.toNat)*1099511628211)) 1469598103934665603

def keyEq (k₁ k₂ : Key) : Bool := k₁.len == k₂.len && k₁.content.take k₁.len == k₂.content.take k₁.len

def sizeofTokenizerEntry : Nat := 24

def tokenizerTableInit (expected : Nat) : Except Exit TokenizerTable :=
  match nextPow2 (u64 (expected*2+16)) with
  | none => .error .hang
  | some cap =>
    if cap > uint64Max/sizeofTokenizerEntry then .error (.report "Out of memory" [] [])
    else .ok ⟨fun _ => none,cap,0⟩

-- The loop of put and get. After `cap` slots it has been everywhere.
def tokenizerTableProbe (table : TokenizerTable) (key : Key) : Nat → Nat → Option Nat
  | 0,_ => none
  | fuel+1,i =>
    match table.entry i with
    | none => some i
    | some e => if keyEq e.key key then some i else tokenizerTableProbe table key fuel ((i+1) &&& (table.cap-1))

def tokenizerTableFind (table : TokenizerTable) (key : Key) : Option Nat :=
  tokenizerTableProbe table key table.cap (hashBytes key.bytes &&& (table.cap-1))

def tokenizerTablePut (table : TokenizerTable) (key : Key) (value : Int) : Except Exit TokenizerTable :=
  match tokenizerTableFind table key with
  | none => .error .hang
  | some i =>
    match table.entry i with
    | some e => .ok {table with entry:=Probe.put table.entry i {e with value:=value}}
    | none => .ok {table with entry:=Probe.put table.entry i ⟨key,value⟩,used:=table.used+1}

def tokenizerTableGet (table : TokenizerTable) (key : Key) : Option Int :=
  if table.cap = 0 then none
  else ((tokenizerTableFind table key).bind table.entry).map TokenizerEntry.value

def keyName (k : Key) : Nat × List UInt8 := (k.len,k.bytes)
def entryName (e : TokenizerEntry) : Nat × List UInt8 := keyName e.key
def home (n : Nat × List UInt8) : Nat := hashBytes n.2

theorem keyEq_iff (k₁ k₂ : Key) : keyEq k₁ k₂ = true ↔ keyName k₁ = keyName k₂ := by
  simp only [keyEq,keyName,Key.bytes,Bool.and_eq_true,beq_iff_eq,Prod.mk.injEq]
  constructor
  · rintro ⟨len,same⟩; exact ⟨len,by rw [← len]; exact same⟩
  · rintro ⟨len,same⟩; exact ⟨len,by rw [len] at same ⊢; exact same⟩

-- A table all of whose entries can be found again.
structure TokenizerTable.Ok (t : TokenizerTable) : Prop where
  pow : ∃ m, t.cap = 2^m
  placed : Probe.Placed entryName home t.cap t.entry
  counted : (Probe.occupied t.cap t.entry).card = t.used

theorem masked (n m : Nat) : n &&& (2^m-1) = n % 2^m := Nat.and_two_pow_sub_one_eq_mod n m

theorem tokenizerTableProbe_eq (t : TokenizerTable) (pow : t.cap = 2^m) (key : Key) (fuel : Nat) : ∀ i,
    tokenizerTableProbe t key fuel i = Probe.probe entryName t.cap t.entry (keyName key) fuel i := by
  induction fuel with
  | zero => intro i; rfl
  | succ fuel ih =>
    intro i
    unfold tokenizerTableProbe Probe.probe
    cases t.entry i with
    | none => rfl
    | some e =>
      have step : (i+1) &&& (t.cap-1) = (i+1) % t.cap := by rw [pow]; exact masked _ _
      by_cases same : keyName e.key = keyName key
      · simp only [(keyEq_iff _ _).mpr same,entryName,same,if_true]
      · have other : keyEq e.key key = false := by
          rw [Bool.eq_false_iff,ne_eq,keyEq_iff]; exact same
        simp only [other,entryName,same,if_false,Bool.false_eq_true,step,ih]

theorem tokenizerTableFind_eq (t : TokenizerTable) (ok : t.Ok) (key : Key) :
    tokenizerTableFind t key = Probe.find entryName home t.cap t.entry (keyName key) := by
  obtain ⟨m,pow⟩ := ok.pow
  have start : hashBytes key.bytes &&& (t.cap-1) = Probe.seat home t.cap (keyName key) 0 := by
    rw [pow,masked]; rfl
  unfold tokenizerTableFind Probe.find
  rw [start]
  exact tokenizerTableProbe_eq t pow key _ _

theorem tokenizerTableFind_ends (t : TokenizerTable) (ok : t.Ok) (room : t.used < t.cap) (key : Key) :
    ∃ i, tokenizerTableFind t key = some i := by
  obtain ⟨n,found,_⟩ := Probe.find_first entryName home t.cap t.entry (by rw [ok.counted]; exact room) (keyName key)
  exact ⟨_,by rw [tokenizerTableFind_eq t ok key]; exact found⟩

theorem tokenizerTableGet_iff (t : TokenizerTable) (ok : t.Ok) (room : t.used < t.cap) (key : Key) (v : Int) :
    tokenizerTableGet t key = some v ↔ ∃ e, Probe.Holds t.entry e ∧ entryName e = keyName key ∧ e.value = v := by
  have positive : t.cap ≠ 0 := by omega
  have found := Probe.lookup_iff entryName home t.cap ok.placed (by rw [ok.counted]; exact room) (keyName key)
  unfold tokenizerTableGet
  rw [if_neg positive,tokenizerTableFind_eq t ok key]
  change (Probe.lookup entryName home t.cap t.entry (keyName key)).map TokenizerEntry.value = some v ↔ _
  rw [Option.map_eq_some_iff]
  constructor
  · rintro ⟨e,there,value⟩
    obtain ⟨held,named⟩ := (found e).mp there
    exact ⟨e,held,named,value⟩
  · rintro ⟨e,held,named,value⟩
    exact ⟨e,(found e).mpr ⟨held,named⟩,value⟩

theorem tokenizerTablePut_spec (t : TokenizerTable) (ok : t.Ok) (room : t.used+1 < t.cap) (key : Key) (v : Int) :
    ∃ t', tokenizerTablePut t key v = .ok t' ∧ t'.Ok ∧ t'.cap = t.cap ∧ t'.used ≤ t.used+1 ∧
      ∀ k, tokenizerTableGet t' k = if keyName k = keyName key then some v else tokenizerTableGet t k := by
  have before : t.used < t.cap := by omega
  have space : (Probe.occupied t.cap t.entry).card < t.cap := by rw [ok.counted]; exact before
  obtain ⟨n,searched,stops,_⟩ := Probe.find_first entryName home t.cap t.entry space (keyName key)
  have below : Probe.seat home t.cap (keyName key) n < t.cap := Nat.mod_lt _ (by omega)
  generalize Probe.seat home t.cap (keyName key) n = i at searched stops below
  have found : tokenizerTableFind t key = some i := by rw [tokenizerTableFind_eq t ok key]; exact searched
  -- Whatever is written there has the name that was searched for.
  have written : ∃ e used, entryName e = keyName key ∧ e.value = v ∧
      tokenizerTablePut t key v = .ok ⟨Probe.put t.entry i e,t.cap,used⟩ ∧
      used = t.used+(if (t.entry i).isSome then 0 else 1) := by
    unfold tokenizerTablePut
    rw [found]
    cases held : t.entry i with
    | none => exact ⟨⟨key,v⟩,_,rfl,rfl,by simp [held],rfl⟩
    | some e => exact ⟨{e with value:=v},_,stops e held,rfl,by simp [held],rfl⟩
  obtain ⟨e,used,named,value,run,count⟩ := written
  rw [← named] at searched
  refine ⟨_,run,⟨ok.pow,Probe.put_placed entryName home t.cap ok.placed space searched,?_⟩,rfl,?_,?_⟩
  · rw [Probe.put_occupied t.cap t.entry e below,ok.counted]; exact count.symm
  · simp only [count]; split <;> omega
  · have ok' : (⟨Probe.put t.entry i e,t.cap,used⟩ : TokenizerTable).Ok :=
      ⟨ok.pow,Probe.put_placed entryName home t.cap ok.placed space searched,by
        rw [Probe.put_occupied t.cap t.entry e below,ok.counted]; exact count.symm⟩
    have room' : used < t.cap := by rw [count]; split <;> omega
    intro k
    refine Option.ext fun w => ?_
    rw [tokenizerTableGet_iff _ ok' room' k w]
    simp only [Probe.put_holds entryName home t.cap ok.placed space searched]
    by_cases same : keyName k = keyName key
    · rw [if_pos same]
      constructor
      · rintro ⟨e',rfl | ⟨_,other⟩,named',rfl⟩
        · rw [value]
        · exact absurd (by rw [named',same,named]) other
      · intro there
        exact ⟨e,.inl rfl,by rw [named,same],by rw [value]; exact Option.some.inj there⟩
    · rw [if_neg same,tokenizerTableGet_iff t ok before k w]
      constructor
      · rintro ⟨e',rfl | ⟨held,_⟩,named',value'⟩
        · exact absurd (by rw [← named',named]) same
        · exact ⟨e',held,named',value'⟩
      · rintro ⟨e',held,named',value'⟩
        exact ⟨e',.inr ⟨held,by rw [named',named]; exact same⟩,named',value'⟩

theorem nextPow2From_spec (n : Nat) : ∀ k j fuel, n ≤ 2^(j+k) → j+k < 64 → k < fuel →
    ∃ m, nextPow2From n fuel (2^j) = some (2^m) ∧ n ≤ 2^m ∧ m ≤ j+k := by
  intro k
  induction k with
  | zero =>
    intro j fuel large _ enough
    rw [Nat.add_zero] at large
    obtain ⟨fuel,rfl⟩ : ∃ f, fuel = f+1 := ⟨fuel-1,by omega⟩
    exact ⟨j,by rw [nextPow2From,if_neg (Nat.not_lt.mpr large)],large,by omega⟩
  | succ k ih =>
    intro j fuel large below enough
    obtain ⟨fuel,rfl⟩ : ∃ f, fuel = f+1 := ⟨fuel-1,by omega⟩
    by_cases small : 2^j < n
    · have doubled : u64 (2*2^j) = 2^(j+1) := by
        rw [← pow_succ']
        exact u64_of_lt (Nat.pow_lt_pow_right (by decide) (by omega))
      obtain ⟨m,run,covers,bound⟩ := ih (j+1) fuel (by rwa [show j+1+k = j+(k+1) by omega]) (by omega) (by omega)
      refine ⟨m,?_,covers,by omega⟩
      rw [nextPow2From,if_pos small,doubled]
      exact run
    · exact ⟨j,by rw [nextPow2From,if_neg small],by omega,by omega⟩

theorem tokenizerTableInit_spec (expected : Nat) (small : expected < 2^32) :
    ∃ t, tokenizerTableInit expected = .ok t ∧ t.Ok ∧ t.used = 0 ∧ expected < t.cap ∧
      ∀ k, tokenizerTableGet t k = none := by
  have exact' : u64 (expected*2+16) = expected*2+16 := u64_of_lt (by omega)
  obtain ⟨m,run,covers,bound⟩ := nextPow2From_spec (expected*2+16) 34 0 65 (by omega) (by decide) (by decide)
  have low : 2^m ≤ 2^34 := Nat.pow_le_pow_right (by decide) (by omega)
  have ok : (⟨fun _ => none,2^m,0⟩ : TokenizerTable).Ok :=
    ⟨⟨m,rfl⟩,Probe.placed_empty entryName home _,Probe.occupied_empty _⟩
  refine ⟨_,?_,ok,rfl,by change expected < 2^m; omega,?_⟩
  · have fits : ¬2^m > uint64Max/sizeofTokenizerEntry := by simp only [uint64Max,sizeofTokenizerEntry]; omega
    unfold tokenizerTableInit nextPow2
    rw [exact',show (1 : Nat) = 2^0 from rfl,run]
    simp only [if_neg fits]
  · intro k
    refine Option.eq_none_iff_forall_ne_some.mpr fun v there => ?_
    obtain ⟨e,⟨i,held⟩,_⟩ := (tokenizerTableGet_iff _ ok (by change 0 < 2^m; omega) k v).mp there
    simp at held

end TinyLlama.Vocabulary
