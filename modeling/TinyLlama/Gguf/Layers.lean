import TinyLlama.Gguf.Bounds

namespace TinyLlama.Gguf

def numeral (n : Nat) (digits : List UInt8) : Nat := digits.foldl (fun n b => n*10+(b.toNat-48)) n
def decimal (n : Nat) : List UInt8 := cstr (toString n)

-- A name blk.<digits>.<rest>, digits possibly missing.
def splitBlk (name : List UInt8) : Option (List UInt8 × List UInt8) :=
  if name.take 4 = cstr "blk." then
    match (name.drop 4).dropWhile isDigit with
    | b :: s => if b = dot then some ((name.drop 4).takeWhile isDigit,s) else none
    | [] => none
  else none

-- The N of a name blk.N.*, as a natural number.
def blkNumber (name : List UInt8) : Option Nat :=
  match splitBlk name with
  | some (digits,_) => if digits ≠ [] then some (numeral 0 digits) else none
  | none => none

theorem splitBlk_sound (split : splitBlk name = some (digits,s)) :
    name = cstr "blk."++(digits++dot :: s) ∧ digits.all isDigit = true := by
  unfold splitBlk at split
  by_cases named : name.take 4 = cstr "blk."
  · rw [if_pos named] at split
    have whole := List.takeWhile_append_dropWhile (p:=isDigit) (l:=name.drop 4)
    cases rest : (name.drop 4).dropWhile isDigit with
    | nil => simp [rest] at split
    | cons b t =>
      by_cases dotted : b = dot
      · simp only [rest,dotted,if_true,Option.some.injEq,Prod.mk.injEq] at split
        obtain ⟨rfl,rfl⟩ := split
        rw [rest,dotted] at whole
        refine ⟨?_,List.all_takeWhile⟩
        rw [whole,← named,List.take_append_drop]
      · simp [rest,dotted] at split
  · simp [named] at split

theorem splitBlk_complete (digital : digits.all isDigit = true) :
    splitBlk (cstr "blk."++(digits++dot :: s)) = some (digits,s) := by
  have prefix4 : (cstr "blk.").length = 4 := rfl
  have undotted : isDigit dot = false := rfl
  have taken : (digits++dot :: s).takeWhile isDigit = digits := by
    rw [List.takeWhile_append_of_pos (by simpa using digital)]
    simp [undotted]
  have dropped : (digits++dot :: s).dropWhile isDigit = dot :: s := by
    rw [List.dropWhile_append_of_pos (by simpa using digital)]
    simp [undotted]
  unfold splitBlk
  rw [List.take_left' prefix4,List.drop_left' prefix4,taken,dropped]
  simp

theorem blkDigits_eq (xs : List UInt8) : ∀ n, blkDigits (u32 n) xs =
    (u32 (numeral n (xs.takeWhile isDigit)),xs.dropWhile isDigit) := by
  induction xs with
  | nil => intro n; rfl
  | cons b rest ih =>
    intro n
    cases digit : isDigit b with
    | true =>
      have step : u32 (u32 n*10+(b.toNat-48)) = u32 (n*10+(b.toNat-48)) := by simp only [u32]; omega
      simp only [blkDigits,digit,if_true,step,ih,List.takeWhile_cons,List.dropWhile_cons]
      rfl
    | false => simp [blkDigits,digit,numeral]

theorem countedLayer_eq (name : List UInt8) : countedLayer name = (blkNumber name).map u32 := by
  have digits := blkDigits_eq (name.drop 4) 0
  have whole := congrArg List.length (List.takeWhile_append_dropWhile (p:=isDigit) (l:=name.drop 4))
  simp only [List.length_append,List.length_drop] at whole
  unfold countedLayer blkNumber splitBlk
  rw [show blkDigits 0 = blkDigits (u32 0) from rfl,digits]
  by_cases named : name.take 4 = cstr "blk."
  · cases rest : (name.drop 4).dropWhile isDigit with
    | nil => simp [named]
    | cons b s =>
      rw [rest,List.length_cons] at whole
      by_cases dotted : b = dot
      · by_cases none : (name.drop 4).takeWhile isDigit = []
        · simp [named,dotted,none] at whole ⊢
          omega
        · have some' := List.length_pos_iff.mpr none
          simp [named,dotted,none]
          omega
      · simp [named,dotted]
  · simp [named]

theorem layerTensorParse_eq (name : List UInt8) : layerTensorParse name =
    if name.length < 7 then none else (splitBlk name).map fun r => (u32 (numeral 0 r.1),stripWeight r.2) := by
  have digits := blkDigits_eq (name.drop 4) 0
  unfold layerTensorParse splitBlk
  rw [show blkDigits 0 = blkDigits (u32 0) from rfl,digits]
  by_cases short : name.length < 7
  · simp [short]
  by_cases named : name.take 4 = cstr "blk."
  · cases rest : (name.drop 4).dropWhile isDigit with
    | nil => simp [short,named]
    | cons b s => by_cases dotted : b = dot <;> simp [short,named,dotted]
  · simp [short,named]

-- One pass over the tensors keeps the largest counted number.
def largestCounted (tensor : List TensorInfo) (maxN : Nat) : Nat :=
  tensor.foldl (fun maxN t =>
    match countedLayer t.key.bytes with
    | some n => if n ≥ maxN then n else maxN
    | none => maxN) maxN

theorem largestCounted_spec (tensor : List TensorInfo) : ∀ maxN, maxN ≤ largestCounted tensor maxN ∧
    (∀ t ∈ tensor, ∀ n, countedLayer t.key.bytes = some n → n ≤ largestCounted tensor maxN) ∧
    (largestCounted tensor maxN = maxN ∨ ∃ t ∈ tensor, countedLayer t.key.bytes = some (largestCounted tensor maxN)) := by
  induction tensor with
  | nil => intro maxN; exact ⟨Nat.le_refl _,fun _ impossible => by simp at impossible,.inl rfl⟩
  | cons t rest ih =>
    intro maxN
    have step : ∃ next, largestCounted (t :: rest) maxN = largestCounted rest next ∧ maxN ≤ next ∧
        (∀ n, countedLayer t.key.bytes = some n → n ≤ next) ∧ (next = maxN ∨ countedLayer t.key.bytes = some next) := by
      cases counted : countedLayer t.key.bytes with
      | none => exact ⟨maxN,by simp [largestCounted,counted],Nat.le_refl _,fun _ impossible => by simp at impossible,.inl rfl⟩
      | some n =>
        by_cases larger : n ≥ maxN
        · exact ⟨n,by simp [largestCounted,counted,larger],larger,fun _ same => by simp at same; omega,.inr rfl⟩
        · exact ⟨maxN,by simp [largestCounted,counted,larger],Nat.le_refl _,fun _ same => by simp at same; omega,.inl rfl⟩
    obtain ⟨next,run,grown,covers,origin⟩ := step
    obtain ⟨above,all,found⟩ := ih next
    rw [run]
    refine ⟨Nat.le_trans grown above,?_,?_⟩
    · intro t' present n counted
      rcases List.mem_cons.mp present with rfl | later
      · exact Nat.le_trans (covers n counted) above
      · exact all t' later n counted
    · rcases found with same | ⟨t',present,counted⟩
      · rcases origin with start | here
        · exact .inl (by omega)
        · exact .inr ⟨t,List.mem_cons_self ..,by rw [same]; exact here⟩
      · exact .inr ⟨t',List.mem_cons_of_mem _ present,counted⟩

def layerNumbers (m : Model) : Set Nat := {n | ∃ t ∈ m.tensor, blkNumber t.key.bytes = some n}

-- n_layer is one more than the largest number exactly when no number reaches the
-- last 32-bit value.
theorem modelCountLayers_iff (m : Model) (some' : (layerNumbers m).Nonempty) :
    (∃ n, IsGreatest (layerNumbers m) n ∧ modelCountLayers m = 1+n) ↔ ∀ n ∈ layerNumbers m, n < 2^32-1 := by
  have count : modelCountLayers m = u32 (largestCounted m.tensor 0+1) := rfl
  obtain ⟨_,all,found⟩ := largestCounted_spec m.tensor 0
  constructor
  · rintro ⟨n,greatest,exact'⟩ k listed
    have below := greatest.2 listed
    have small := u32_lt (largestCounted m.tensor 0+1)
    omega
  · intro small
    have counted : ∀ t ∈ m.tensor, ∀ n, blkNumber t.key.bytes = some n → countedLayer t.key.bytes = some n := by
      intro t present n number
      rw [countedLayer_eq,number,Option.map_some,u32_of_lt (by have := small n ⟨t,present,number⟩; omega)]
    have greatest : IsGreatest (layerNumbers m) (largestCounted m.tensor 0) := by
      refine ⟨?_,fun n ⟨t,present,number⟩ => all t present n (counted t present n number)⟩
      rcases found with zero | ⟨t,present,largest⟩
      · obtain ⟨n,t,present,number⟩ := some'
        have below := all t present n (counted t present n number)
        exact ⟨t,present,by rw [number]; congr 1; omega⟩
      · rw [countedLayer_eq] at largest
        cases number : blkNumber t.key.bytes with
        | none => simp [number] at largest
        | some n =>
          have below := small n ⟨t,present,number⟩
          rw [number,Option.map_some,u32_of_lt (by omega)] at largest
          exact ⟨t,present,by rw [number,largest]⟩
    have below := small _ greatest.1
    refine ⟨_,greatest,?_⟩
    rw [count,u32_of_lt (by omega),Nat.add_comm]

-- Tensor i is the last of the file to claim slot (l, r).
def LastFor (slot : TensorInfo → Option (Nat × TensorRole)) (tensor : List TensorInfo) (l : Nat) (r : TensorRole)
    (i : Nat) (t : TensorInfo) : Prop :=
  tensor[i]? = some t ∧ slot t = some (l,r) ∧ ∀ j t', i < j → tensor[j]? = some t' → slot t' ≠ some (l,r)

theorem LastFor.cons (first : TensorInfo) (last : LastFor slot rest l r i t) :
    LastFor slot (first :: rest) l r (i+1) t := by
  obtain ⟨present,bound,later⟩ := last
  refine ⟨by simpa using present,bound,?_⟩
  intro j t' after listed
  cases j with
  | zero => omega
  | succ j => exact later j t' (by omega) (by simpa using listed)

theorem layersWeightsFrom_spec (map : List LayerTensorMap) (nLayer : Nat) (l : Nat) (r : TensorRole)
    (tensor : List TensorInfo) : ∀ i (table : LayerTable),
    (∃ j t, LastFor (layerSlot map nLayer) tensor l r j t ∧
      layersWeightsFrom map nLayer i tensor table l r = some (i+j)) ∨
    ((∀ t ∈ tensor, layerSlot map nLayer t ≠ some (l,r)) ∧
      layersWeightsFrom map nLayer i tensor table l r = table l r) := by
  induction tensor with
  | nil => intro i table; exact .inr ⟨fun _ impossible => by simp at impossible,rfl⟩
  | cons first rest ih =>
    intro i table
    have next : ∃ table', layersWeightsFrom map nLayer i (first :: rest) table =
        layersWeightsFrom map nLayer (i+1) rest table' ∧
        (layerSlot map nLayer first = some (l,r) → table' l r = some i) ∧
        (layerSlot map nLayer first ≠ some (l,r) → table' l r = table l r) := by
      cases slot : layerSlot map nLayer first with
      | none => exact ⟨table,by simp [layersWeightsFrom,slot],fun impossible => by simp at impossible,fun _ => rfl⟩
      | some nr =>
        obtain ⟨n,r'⟩ := nr
        refine ⟨table.bind n r' i,by simp [layersWeightsFrom,slot],?_,?_⟩
        · intro same
          obtain ⟨rfl,rfl⟩ := Prod.mk.inj (Option.some.inj same)
          simp [LayerTable.bind]
        · intro other
          have apart : ¬(l = n ∧ r = r') := fun ⟨same,same'⟩ => other (by rw [same,same'])
          simp [LayerTable.bind,apart]
    obtain ⟨table',run,here,elsewhere⟩ := next
    rw [run]
    rcases ih (i+1) table' with ⟨j,t,last,found⟩ | ⟨none,kept⟩
    · exact .inl ⟨j+1,t,last.cons first,by rw [found]; congr 1; omega⟩
    · by_cases slot : layerSlot map nLayer first = some (l,r)
      · refine .inl ⟨0,first,⟨rfl,slot,?_⟩,by rw [kept,here slot]; rfl⟩
        intro j t' after listed
        cases j with
        | zero => omega
        | succ j => exact none t' (List.mem_of_getElem? (by simpa using listed))
      · refine .inr ⟨?_,by rw [kept,elsewhere slot]⟩
        intro t present
        rcases List.mem_cons.mp present with rfl | later
        · exact slot
        · exact none t later

theorem layersWeightsLoad_iff (m : Model) (nLayer l : Nat) (r : TensorRole) (i : Nat) :
    layersWeightsLoad m nLayer l r = some i ↔
      ∃ t, LastFor (layerSlot (archLayerMap m.arch) nLayer) m.tensor l r i t := by
  rcases layersWeightsFrom_spec (archLayerMap m.arch) nLayer l r m.tensor 0 (fun _ _ => none) with
    ⟨j,t,last,found⟩ | ⟨none,kept⟩
  · have table : layersWeightsLoad m nLayer l r = some j := by rw [Nat.zero_add] at found; exact found
    rw [table]
    constructor
    · rintro ⟨⟩; exact ⟨t,last⟩
    · rintro ⟨t',last'⟩
      rcases Nat.lt_trichotomy i j with before | rfl | after
      · exact absurd last.2.1 (last'.2.2 j t before last.1)
      · rfl
      · exact absurd last'.2.1 (last.2.2 i t' after last'.1)
  · have table : layersWeightsLoad m nLayer l r = Option.none := kept
    rw [table]
    constructor
    · rintro ⟨⟩
    · rintro ⟨t,present,bound,_⟩
      exact absurd bound (none t (List.mem_of_getElem? present))

-- The slot a name claims, whatever the layer count is.
def nameSlot (map : List LayerTensorMap) (t : TensorInfo) : Option (Nat × TensorRole) :=
  (layerTensorParse t.key.bytes).bind fun (n,suffix) => (roleOf map suffix).map fun r => (n,r)

theorem layerSlot_eq (map : List LayerTensorMap) (nLayer : Nat) (t : TensorInfo)
    (below : ∀ n s, layerTensorParse t.key.bytes = some (n,s) → n < nLayer) :
    layerSlot map nLayer t = nameSlot map t := by
  unfold layerSlot nameSlot
  cases parsed : layerTensorParse t.key.bytes with
  | none => rfl
  | some ns =>
    obtain ⟨n,s⟩ := ns
    have small := below n s parsed
    simp [Nat.not_le.mpr small]

theorem decimal_digits (n : Nat) : (decimal n).all isDigit = true := by
  simp only [decimal,cstr,List.all_map,List.all_eq_true]
  intro c present
  have digits : (toString n).toList = Nat.toDigits 10 n := Nat.toList_repr
  rw [digits] at present
  have digit := Nat.isDigit_of_mem_toDigits (by decide) (by decide) present
  simp only [Char.isDigit,Bool.and_eq_true,decide_eq_true_eq] at digit
  have low : 48 ≤ c.toNat := digit.1
  have high : c.toNat ≤ 57 := digit.2
  have narrow : (UInt8.ofNat c.toNat).toNat = c.toNat := by simp; omega
  simp only [Function.comp,isDigit,narrow,decide_eq_true_eq]
  exact ⟨low,high⟩

theorem stripWeight_cases (s : List UInt8) : s = stripWeight s ∨ s = stripWeight s++cstr ".weight" := by
  unfold stripWeight
  split
  · rename_i weighted
    refine .inr ?_
    rw [← weighted.2,List.take_append_drop]
  · exact .inl rfl

-- blk.l.<suffix> with an optional .weight.
def Spelled (name : List UInt8) (l : Nat) (suffix : String) : Prop :=
  name = layerTensorName l (cstr suffix) ∨ name = layerTensorName l (cstr suffix)++cstr ".weight"

theorem Spelled.split (spelled : Spelled name l suffix) : ∃ s, splitBlk name = some (decimal l,s) := by
  rcases spelled with rfl | rfl
  · have cut : layerTensorName l (cstr suffix) = cstr "blk."++(decimal l++dot :: cstr suffix) := by
      simp [layerTensorName,decimal]
    exact ⟨_,by rw [cut]; exact splitBlk_complete (decimal_digits l)⟩
  · have cut : layerTensorName l (cstr suffix)++cstr ".weight" =
        cstr "blk."++(decimal l++dot :: (cstr suffix++cstr ".weight")) := by
      simp [layerTensorName,decimal]
    exact ⟨_,by rw [cut]; exact splitBlk_complete (decimal_digits l)⟩

theorem roleOf_entry (found : roleOf map suffix = some r) : ∃ e ∈ map, e.role = r ∧ cstr e.suffix = suffix := by
  unfold roleOf at found
  cases entry : map.find? (fun e => cstr e.suffix == suffix) with
  | none => simp [entry] at found
  | some e =>
    simp only [entry,Option.map_some,Option.some.injEq] at found
    exact ⟨e,List.mem_of_find?_eq_some entry,found,by simpa using List.find?_some entry⟩

theorem roleOf_map (arch : ModelArch) : ∀ e ∈ archLayerMap arch,
    roleOf (archLayerMap arch) (cstr e.suffix) = some e.role := by
  cases arch <;> decide

theorem nameSlot_spelled (slot : nameSlot map t = some (l,r)) :
    (∃ s, splitBlk t.key.bytes = some (decimal l,s)) ↔ ∃ e ∈ map, e.role = r ∧ Spelled t.key.bytes l e.suffix := by
  constructor
  · rintro ⟨s,split⟩
    unfold nameSlot at slot
    rw [layerTensorParse_eq,split] at slot
    by_cases short : t.key.bytes.length < 7
    · simp [short] at slot
    · simp only [short,if_false,Option.map_some,Option.bind_some,Option.map_eq_some_iff,Prod.mk.injEq] at slot
      obtain ⟨r',role,layer,rfl⟩ := slot
      obtain ⟨e,present,rfl,suffix⟩ := roleOf_entry role
      refine ⟨e,present,rfl,?_⟩
      have name := (splitBlk_sound split).1
      rcases stripWeight_cases s with bare | weighted
      · left; rw [name,bare,← suffix]; simp [layerTensorName,decimal]
      · right; rw [name,weighted,← suffix]; simp [layerTensorName,decimal]
  · rintro ⟨e,_,_,spelled⟩
    exact spelled.split

theorem topTensors_ok (m : Model) (entries : List TensorMapEntry) : ∀ table,
    (∀ e ∈ entries, e.required = true → (modelFindTensor m e.name).isSome) →
    ∃ table', topTensors m entries table = .ok table' := by
  induction entries with
  | nil => intro table _; exact ⟨table,rfl⟩
  | cons e rest ih =>
    intro table found
    have step : ¬(m.tensor.findIdx? (fun t => keyStreq t.key e.name) = none ∧ e.required = true) := by
      rintro ⟨absent,required⟩
      have present := found e (List.mem_cons_self ..) required
      simp only [modelFindTensor,List.find?_isSome] at present
      obtain ⟨t,listed,named⟩ := present
      simp [List.findIdx?_eq_none_iff.mp absent t listed] at named
    unfold topTensors
    simp only
    rw [if_neg step]
    exact ih _ (fun e' present => found e' (List.mem_cons_of_mem _ present))

theorem weightsLoad_ok (m : Model) (complete : missingTop m = none) :
    ∃ w, weightsLoad m = .ok w ∧ w.nLayer = modelCountLayers m ∧ w.layers = layersWeightsLoad m (modelCountLayers m) := by
  have found : ∀ e ∈ archTensorMap m.arch, e.required = true → (modelFindTensor m e.name).isSome := by
    intro e present required
    have none := List.find?_eq_none.mp complete e present
    simp only [required,Bool.true_and] at none
    cases found : modelFindTensor m e.name with
    | none => simp [found] at none
    | some t => rfl
  obtain ⟨table,run⟩ := topTensors_ok m (archTensorMap m.arch) (fun _ => none) found
  unfold weightsLoad
  rw [run]
  exact ⟨_,rfl,rfl,rfl⟩

-- A weights table that is what the tensor names say.
structure TableRight (m : Model) (w : Weights) : Prop where
  count : ∃ n, IsGreatest (layerNumbers m) n ∧ w.nLayer = 1+n
  filled : ∀ l < w.nLayer, ∀ e ∈ archLayerMap m.arch, e.required = true → ∃ i, w.layers l e.role = some i
  named : ∀ l r i, w.layers l r = some i → l < w.nLayer ∧ ∃ t e, m.tensor[i]? = some t ∧
    e ∈ archLayerMap m.arch ∧ e.role = r ∧ Spelled t.key.bytes l e.suffix

-- Every layer number fits, and the name that wins a slot spells its number in
-- plain decimal: at least one digit and no leading zero.
structure PlainNumbers (m : Model) : Prop where
  small : ∀ n ∈ layerNumbers m, n < 2^32-1
  plain : ∀ l r i t, LastFor (nameSlot (archLayerMap m.arch)) m.tensor l r i t →
    ∃ s, splitBlk t.key.bytes = some (decimal l,s)

theorem parsed_below (m : Model) (some' : (layerNumbers m).Nonempty) (small : ∀ n ∈ layerNumbers m, n < 2^32-1) :
    ∀ t ∈ m.tensor, ∀ l s, layerTensorParse t.key.bytes = some (l,s) → l < modelCountLayers m := by
  obtain ⟨n,greatest,count⟩ := (modelCountLayers_iff m some').mpr small
  intro t present l s parsed
  rw [layerTensorParse_eq] at parsed
  by_cases short : t.key.bytes.length < 7
  · simp [short] at parsed
  cases split : splitBlk t.key.bytes with
  | none => simp [split] at parsed
  | some ds =>
    obtain ⟨digits,rest⟩ := ds
    simp only [short,if_false,split,Option.map_some,Option.some.injEq,Prod.mk.injEq] at parsed
    obtain ⟨rfl,_⟩ := parsed
    by_cases none : digits = []
    · subst none
      simp only [numeral,List.foldl_nil,u32]
      omega
    · have listed : numeral 0 digits ∈ layerNumbers m := ⟨t,present,by simp [blkNumber,split,none]⟩
      have below := greatest.2 listed
      have fits := u64_le
      have cut : u32 (numeral 0 digits) ≤ numeral 0 digits := Nat.mod_le _ _
      omega

theorem LastFor.congr (same : ∀ t ∈ tensor, slot t = slot' t) (last : LastFor slot tensor l r i t) :
    LastFor slot' tensor l r i t := by
  obtain ⟨present,bound,later⟩ := last
  refine ⟨present,by rw [← same t (List.mem_of_getElem? present)]; exact bound,?_⟩
  intro j t' after listed
  rw [← same t' (List.mem_of_getElem? listed)]
  exact later j t' after listed

theorem required_filled (m : Model) (complete : missingLayer m = none) :
    ∀ l < modelCountLayers m, ∀ e ∈ archLayerMap m.arch, e.required = true →
      ∃ i, layersWeightsLoad m (modelCountLayers m) l e.role = some i := by
  intro l below e present required
  have clean := List.findSome?_eq_none_iff.mp complete l (List.mem_range.mpr below)
  simp only [Option.map_eq_none_iff,List.find?_eq_none] at clean
  have found : layerTensorFound m l e = true := by simpa [required] using clean e present
  simp only [layerTensorFound,List.any_eq_true,beq_iff_eq] at found
  obtain ⟨t,listed,parsed⟩ := found
  have slot : layerSlot (archLayerMap m.arch) (modelCountLayers m) t = some (l,e.role) := by
    unfold layerSlot
    simp only [parsed]
    rw [if_neg (by omega),roleOf_map m.arch e present]
    rfl
  rcases layersWeightsFrom_spec (archLayerMap m.arch) (modelCountLayers m) l e.role m.tensor 0 (fun _ _ => none) with
    ⟨j,_,_,found⟩ | ⟨none,_⟩
  · exact ⟨_,found⟩
  · exact absurd slot (none t listed)

theorem weights_table_iff (m : Model) (complete : modelCompletenessCheck m = .ok ())
    (layered : (layerNumbers m).Nonempty) :
    ∃ w, weightsLoad m = .ok w ∧ (TableRight m w ↔ PlainNumbers m) := by
  obtain ⟨_,top,layer,_⟩ := modelCompletenessCheck_ok complete
  obtain ⟨w,run,nLayer,layers⟩ := weightsLoad_ok m top
  refine ⟨w,run,?_⟩
  have slots : (∀ n ∈ layerNumbers m, n < 2^32-1) → ∀ t ∈ m.tensor,
      layerSlot (archLayerMap m.arch) (modelCountLayers m) t = nameSlot (archLayerMap m.arch) t := fun small t present =>
    layerSlot_eq _ _ t (parsed_below m layered small t present)
  constructor
  · intro right
    have small := (modelCountLayers_iff m layered).mp (by simpa only [nLayer] using right.count)
    refine ⟨small,?_⟩
    intro l r i t last
    have bound : w.layers l r = some i := by
      rw [layers,layersWeightsLoad_iff]
      exact ⟨t,last.congr fun t' present => (slots small t' present).symm⟩
    obtain ⟨_,t',e,present,listed,role,spelled⟩ := right.named l r i bound
    obtain rfl : t = t' := by simpa [last.1] using present
    exact (nameSlot_spelled last.2.1).mpr ⟨e,listed,role,spelled⟩
  · intro plain
    refine ⟨?_,?_,?_⟩
    · rw [nLayer]; exact (modelCountLayers_iff m layered).mpr plain.small
    · rw [nLayer,layers]; exact required_filled m layer
    · intro l r i bound
      rw [layers,layersWeightsLoad_iff] at bound
      obtain ⟨t,last⟩ := bound
      have last' := last.congr (slots plain.small)
      obtain ⟨e,listed,role,spelled⟩ := (nameSlot_spelled last'.2.1).mp (plain.plain l r i t last')
      have slot := last'.2.1
      unfold nameSlot at slot
      cases parsed : layerTensorParse t.key.bytes with
      | none => simp [parsed] at slot
      | some ns =>
        obtain ⟨n,s⟩ := ns
        simp only [parsed,Option.bind_some,Option.map_eq_some_iff,Prod.mk.injEq] at slot
        obtain ⟨_,_,rfl,_⟩ := slot
        rw [nLayer]
        exact ⟨parsed_below m layered plain.small t (List.mem_of_getElem? last.1) n s parsed,
          t,e,last.1,listed,role,spelled⟩

def namedTensor (name : String) : TensorInfo := ⟨⟨(cstr name).length,cstr name⟩,1,[0],0,0,none,0,0,0⟩
def namedModel (arch : ModelArch) (names : List String) : Model :=
  ⟨noBytes,ggufValidVersion,defaultAlignment,arch,[],[],names.map namedTensor⟩

def blockSuffixes : List String :=
  ["attn_norm","attn_q","attn_k","attn_v","attn_output","ffn_norm","ffn_gate","ffn_down","ffn_up"]

def twoLayersModel : Model := namedModel .llama (["token_embd.weight","output_norm.weight"]++
  ["0","1"].flatMap fun l => blockSuffixes.map fun s => "blk."++l++"."++s++".weight")

theorem twoLayers_table : ∃ w, weightsLoad twoLayersModel = .ok w ∧ w.nLayer = 2 ∧ TableRight twoLayersModel w := by
  have numbers : ∀ t ∈ twoLayersModel.tensor, ∀ n ∈ blkNumber t.key.bytes, n < 2 := by decide +kernel
  have decimals : ∀ t ∈ twoLayersModel.tensor, ∀ slot ∈ nameSlot (archLayerMap .llama) t,
      (splitBlk t.key.bytes).map Prod.fst = some (decimal slot.1) := by decide +kernel
  have layered : (layerNumbers twoLayersModel).Nonempty :=
    ⟨0,namedTensor "blk.0.attn_norm.weight",by simp [twoLayersModel,namedModel,blockSuffixes],by decide +kernel⟩
  obtain ⟨w,run,right⟩ := weights_table_iff twoLayersModel (by decide +kernel) layered
  have count : modelCountLayers twoLayersModel = 2 := by decide +kernel
  obtain ⟨w',run',nLayer,_⟩ := weightsLoad_ok twoLayersModel (by decide +kernel)
  obtain rfl : w = w' := Except.ok.inj (run.symm.trans run')
  refine ⟨w,run,nLayer.trans count,right.mpr ⟨?_,?_⟩⟩
  · rintro n ⟨t,present,listed⟩
    have below := numbers t present n listed
    omega
  · intro l r i t last
    obtain ⟨⟨digits,s⟩,split,same⟩ := Option.map_eq_some_iff.mp (decimals t (List.mem_of_getElem? last.1) (l,r) last.2.1)
    exact ⟨s,by rw [split,← show digits = decimal l from same]⟩

-- The number 2^32-1 wraps the count to 0: no layer is checked and none is bound.
def wrappedModel : Model :=
  namedModel .llama ["token_embd.weight","output_norm.weight","blk.4294967295.attn_q.weight"]

theorem wrappedModel_table : modelCompletenessCheck wrappedModel = .ok () ∧ (layerNumbers wrappedModel).Nonempty ∧
    ∃ w, weightsLoad wrappedModel = .ok w ∧ ¬TableRight wrappedModel w := by
  have complete : modelCompletenessCheck wrappedModel = .ok () := by decide +kernel
  refine ⟨complete,⟨4294967295,namedTensor "blk.4294967295.attn_q.weight",by simp [wrappedModel,namedModel],
    by decide +kernel⟩,?_⟩
  obtain ⟨w,run,nLayer,_⟩ := weightsLoad_ok wrappedModel (modelCompletenessCheck_ok complete).2.1
  refine ⟨w,run,?_⟩
  intro right
  obtain ⟨n,_,count⟩ := right.count
  have zero : modelCountLayers wrappedModel = 0 := by decide +kernel
  omega

end TinyLlama.Gguf
