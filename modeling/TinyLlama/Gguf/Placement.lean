import TinyLlama.Gguf.Bounds

namespace TinyLlama.Gguf
open LittleEndian Load

-- A tensor info that a writer may put out: the element count of its leading
-- dimensions never carries.
structure Info.Fits (t : Info) : Prop where
  some : 1 ≤ t.dim.length
  few : t.dim.length ≤ ggufMaxDims
  each : ∀ d ∈ t.dim, d < 2^64
  products : ∀ k, (t.dim.take k).prod < 2^64
  type : t.type < 2^32
  offset : t.offset < 2^64

theorem tensorDims_takes (dim : List Nat) : ∀ (nElement : Nat) (c : Cursor), c.Good → (∀ d ∈ dim, d < 2^64) →
    (∀ k, nElement*(dim.take k).prod < 2^64) → c.Ahead (encodeDims dim) →
    (tensorDims dim.length nElement).Takes (encodeDims dim) (dim,nElement*dim.prod) c := by
  induction dim with
  | nil =>
    intro nElement c good _ _ _
    simpa [encodeDims,tensorDims] using Run.takes_pure (ε:=Exit) (([] : List Nat),nElement) good
  | cons d rest ih =>
    intro nElement c good each products ahead
    have cut : encodeDims (d :: rest) = leBytes 8 d++([]++encodeDims rest) := rfl
    have step : nElement*d < 2^64 := by simpa using products 1
    rw [cut] at ahead ⊢
    refine (orExit_takes (cursorU64_takes good (each d (List.mem_cons_self ..)) ahead.left)).bind ahead ?_
    intro c₁ good₁ _ _ ahead₁
    have fine : decide (d ≠ 0 ∧ nElement > uint64Max/d) = false := by
      simp only [ne_eq,gt_iff_lt,decide_eq_false_iff_not,not_and,not_lt]
      intro nonzero
      rw [Nat.le_div_iff_mul_le (Nat.pos_of_ne_zero nonzero)]
      simp only [uint64Max]
      omega
    refine (reject_takes _ good₁ fine).bind ahead₁ ?_
    intro c₂ good₂ _ _ ahead₂
    rw [u64_of_lt step]
    have loop := ih (nElement*d) c₂ good₂ (fun e present => each e (List.mem_cons_of_mem _ present))
      (fun k => by simpa [Nat.mul_assoc] using products (k+1)) ahead₂
    rw [List.prod_cons,← Nat.mul_assoc]
    exact loop.map fun r => (d :: r.1,r.2)

def loadedInfo (f : MappedFile) (post : Nat) (t : Info) : TensorInfo :=
  ⟨storedKey f post t.name.length,t.dim.length,swapDims t.dim,t.type,t.offset,none,t.dim.prod,
    (tensorBytes t.type t.dim.prod).getD 0,paddedDim t.dim.length t.type (swapDims t.dim)⟩

def loadedInfos (f : MappedFile) : Nat → List Info → List TensorInfo
  | _,[] => []
  | post,t :: rest => loadedInfo f post t :: loadedInfos f (post+t.encode.length) rest

theorem tensorInfo_takes (t : Info) (fits : t.Fits) {c : Cursor} (good : c.Good) (ahead : c.Ahead t.encode) :
    tensorInfo.Takes t.encode (loadedInfo c.file c.post t) c := by
  have cut : t.encode = encodeString t.name++(leBytes 4 t.dim.length++([]++(encodeDims t.dim++
      (leBytes 4 t.type++leBytes 8 t.offset)))) := rfl
  have few := fits.few
  have some' := fits.some
  simp only [ggufMaxDims] at few
  rw [cut] at ahead ⊢
  unfold tensorInfo
  refine (orExit_takes (cursorKey_takes good ahead.left)).bind ahead ?_
  intro c₁ good₁ file₁ _ ahead₁
  refine (orExit_takes (cursorU32_takes good₁ (by omega) ahead₁.left)).bind ahead₁ ?_
  intro c₂ good₂ _ _ ahead₂
  have ranked : decide (t.dim.length = 0 ∨ t.dim.length > ggufMaxDims) = false :=
    decide_eq_false (by simp only [ggufMaxDims]; omega)
  refine (reject_takes _ good₂ ranked).bind ahead₂ ?_
  intro c₃ good₃ _ _ ahead₃
  refine (tensorDims_takes t.dim 1 c₃ good₃ fits.each (by simpa using fits.products) ahead₃.left).bind ahead₃ ?_
  intro c₄ good₄ _ _ ahead₄
  refine (orExit_takes (cursorU32_takes good₄ fits.type ahead₄.left)).bind ahead₄ ?_
  intro c₅ good₅ _ _ ahead₅
  rw [Nat.one_mul]
  exact (orExit_takes (cursorU64_takes good₅ fits.offset ahead₅)).map _

theorem tensorLoop_takes (ts : List Info) : ∀ c : Cursor, c.Good → (∀ t ∈ ts, t.Fits) → c.Ahead (encodeInfos ts) →
    (tensorLoop ts.length).Takes (encodeInfos ts) (loadedInfos c.file c.post ts) c := by
  induction ts with
  | nil => intro c good _ _; exact Run.takes_pure _ good
  | cons t rest ih =>
    intro c good fits ahead
    have cut : encodeInfos (t :: rest) = t.encode++encodeInfos rest := rfl
    rw [cut] at ahead ⊢
    refine (tensorInfo_takes t (fits t (List.mem_cons_self ..)) good ahead.left).bind ahead ?_
    intro c₁ good₁ file₁ post₁ ahead₁
    have loop := (ih c₁ good₁ (fun t present => fits t (List.mem_cons_of_mem _ present)) ahead₁).map
      fun loaded => loadedInfo c.file c.post t :: loaded
    rwa [file₁,post₁] at loop

theorem encodeInfos_room (ts : List Info) : 8*ts.length ≤ (encodeInfos ts).length := by
  induction ts with
  | nil => simp [encodeInfos]
  | cons t rest ih =>
    simp only [encodeInfos,List.flatMap_cons,List.length_append,Info.encode,encodeString,leBytes_length,
      List.length_cons] at ih ⊢
    omega

theorem tensorLoad_takes {set : Nat} (ts : List Info) {c : Cursor} (fits : ∀ t ∈ ts, t.Fits)
    (ahead : c.Ahead (encodeInfos ts)) (table : (allocTable set h ts.length sizeofTensorInfo answer).Takes [] h' c) :
    (tensorLoad set h answer ts.length).Takes (encodeInfos ts) (h',loadedInfos c.file c.post ts) c := by
  have whole : c.Ahead ([]++encodeInfos ts) := ahead
  refine table.bind whole ?_
  intro c₁ good₁ file₁ post₁ ahead₁
  have loop := tensorLoop_takes ts c₁ good₁ fits ahead₁
  rw [file₁,show c₁.post = c.post from post₁] at loop
  exact loop.map fun tensor => (h',tensor)

structure Layout.WellFormed (l : Layout) : Prop where
  values : ∀ e ∈ l.kvs, e.value.Fits (ggufMaxDims+1)
  infos : ∀ t ∈ l.infos, t.Fits
  distinct : (l.kvs.map Entry.name).Nodup
  alignment : ∀ e ∈ l.kvs, e.name = cstr "general.alignment" →
    ∃ a, e.value = .scalar valueUint32 (leBytes 4 a) ∧ 0 < a ∧ a < 2^32

def Layout.sectionsEnd (l : Layout) : Nat := 24+(encodeEntries l.kvs).length+(encodeInfos l.infos).length

-- What model_load has parsed of a well-formed file.
def Layout.loaded (l : Layout) (f : MappedFile) : Sections :=
  ⟨ggufValidVersion,
   alignmentOver f (firstPos (recordedKV f 24 l.kvs)) defaultAlignment (recordedKV f 24 l.kvs),
   recordedKV f 24 l.kvs,loadedInfos f (24+(encodeEntries l.kvs).length) l.infos⟩

theorem modelSections_takes (l : Layout) (wf : l.WellFormed) (f : MappedFile) (same : f.bytes = l.encode) :
    ∃ c, modelSections f (cursorAt f 0) = (.ok (l.loaded f),c) ∧ c.post = l.sectionsEnd := by
  have start : (cursorAt f 0).Good := ⟨Nat.zero_le _,fun _ impossible => nomatch impossible⟩
  have kvRoom := encodeEntries_room l.kvs
  have infoRoom := encodeInfos_room l.infos
  have whole : f.bytes.length = l.encode.length := by rw [same]
  simp only [Layout.encode,gguf,List.length_append,leBytes_length] at whole
  have small := f.size_lt
  simp only [MappedFile.size] at small
  have cut : f.bytes = leBytes 4 ggufMagic++([]++(leBytes 4 ggufValidVersion++([]++(leBytes 8 l.infos.length++
      (leBytes 8 l.kvs.length++(encodeEntries l.kvs++(encodeInfos l.infos++l.data))))))) := same
  have ahead : (cursorAt f 0).Ahead (leBytes 4 ggufMagic++([]++(leBytes 4 ggufValidVersion++([]++
      (leBytes 8 l.infos.length++(leBytes 8 l.kvs.length++(encodeEntries l.kvs++encodeInfos l.infos))))))) := by
    refine ⟨l.data,?_⟩
    simp only [cursorAt,List.drop_zero,cut,List.append_assoc,List.nil_append]
  have taken : (modelSections f).Takes (leBytes 4 ggufMagic++([]++(leBytes 4 ggufValidVersion++([]++
      (leBytes 8 l.infos.length++(leBytes 8 l.kvs.length++(encodeEntries l.kvs++encodeInfos l.infos)))))))
      (l.loaded f) (cursorAt f 0) := by
    unfold modelSections sectionsLoad
    refine (orExit_takes (cursorU32_takes start (by decide) ahead.left)).bind ahead ?_
    intro c₁ good₁ file₁ post₁ ahead₁
    refine (reject_takes _ good₁ (by decide)).bind ahead₁ ?_
    intro c₂ good₂ file₂ post₂ ahead₂
    refine (orExit_takes (cursorU32_takes good₂ (by decide) ahead₂.left)).bind ahead₂ ?_
    intro c₃ good₃ file₃ post₃ ahead₃
    refine (reject_takes _ good₃ (by decide)).bind ahead₃ ?_
    intro c₄ good₄ file₄ post₄ ahead₄
    refine (orExit_takes (cursorU64_takes good₄ (by omega) ahead₄.left)).bind ahead₄ ?_
    intro c₅ good₅ file₅ post₅ ahead₅
    refine (orExit_takes (cursorU64_takes good₅ (by omega) ahead₅.left)).bind ahead₅ ?_
    intro c₆ good₆ file₆ post₆ ahead₆
    have file : c₆.file = f := by rw [file₆,file₅,file₄,file₃,file₂,file₁]; rfl
    have post : c₆.post = 24 := by
      rw [post₆,post₅,post₄,post₃,post₂,post₁]
      simp [cursorAt]
    obtain ⟨h,kvTable,kept,low⟩ := started_kv (n:=l.kvs.length) (by simp only [maxEntries]; omega) c₆
    have keys := kvLoad_takes l.kvs wf.values ahead₆.left (allocTable_takes good₆ kvTable)
    rw [file,post] at keys
    refine keys.bind ahead₆ ?_
    intro c₇ good₇ file₇ post₇ ahead₇
    obtain ⟨h',infoTable⟩ := started_tensor kept low (n:=l.infos.length) (by simp only [maxEntries]; omega) c₇
    have infos := (tensorLoad_takes l.infos wf.infos ahead₇ (allocTable_takes good₇ infoTable)).map fun r => (⟨ggufValidVersion,
      alignmentOver f (firstPos (recordedKV f 24 l.kvs)) defaultAlignment (recordedKV f 24 l.kvs),
      recordedKV f 24 l.kvs,r.2⟩ : Sections)
    rw [file₇,file,post₇,post] at infos
    exact infos
  obtain ⟨c,run,_,_,ended⟩ := taken
  refine ⟨c,run,?_⟩
  rw [ended]
  simp only [List.length_append,leBytes_length,List.length_nil,cursorAt,Layout.sectionsEnd]
  omega

-- The alignment the format prescribes: the key's own value, or the default.
def Layout.alignment (l : Layout) : Nat :=
  match l.kvs.find? (fun e => e.name == cstr "general.alignment") with
  | some ⟨_,.scalar _ bytes⟩ => leNat bytes
  | _ => defaultAlignment

-- Keys that pass for general.alignment once their length is cut to 8 bits.
def Entry.aligns (e : Entry) : Bool :=
  u8 e.name.length = 17 ∧ e.name.take 17 = cstr "general.alignment" ∧ e.value.type = valueUint32

-- The u32 at the first key's value: its first four bytes, or those of what
-- follows it where it is shorter.
def Layout.firstU32 (l : Layout) : Nat :=
  match l.kvs with
  | [] => 0
  | e :: rest => leNat ((e.value.encode++(encodeEntries rest++(encodeInfos l.infos++l.data))).take 4)

-- What kv_load takes for the alignment instead.
def Layout.misreadAlignment (l : Layout) : Nat :=
  if l.kvs.any Entry.aligns ∧ l.firstU32 ≠ 0 then l.firstU32 else defaultAlignment

def roundUp (n a : Nat) : Nat := (n+a-1)/a*a

theorem dataBase_roundUp (positive : 0 < a) (small : post+a < 2^64) : dataBase post a = roundUp post a := by
  unfold dataBase roundUp
  have split := Nat.div_add_mod post a
  have rest := Nat.mod_lt post positive
  by_cases exact' : post % a = 0
  · have whole : (post+a-1)/a = post/a := by
      rw [Nat.div_eq_iff positive]
      constructor
      · rw [Nat.mul_comm]; omega
      · rw [Nat.mul_comm]; omega
    rw [whole,Nat.mul_comm]
    simp only [exact',ne_eq,not_true_eq_false,if_false]
    omega
  · have next : (post+a-1)/a = post/a+1 := by
      rw [Nat.div_eq_iff positive]
      rw [Nat.mul_comm,Nat.mul_add]
      omega
    rw [next,Nat.add_mul,Nat.mul_comm,Nat.one_mul,if_pos exact',u64_of_lt (by omega)]
    omega

theorem recorded_aligns (f : MappedFile) (es : List Entry) : ∀ post : Nat,
    encodeEntries es <+: f.bytes.drop post → (recordedKV f post es).any alignsAt = es.any Entry.aligns := by
  induction es with
  | nil => intro post _; rfl
  | cons e rest ih =>
    intro post ahead
    obtain ⟨tail,eq⟩ := ahead
    have cut : encodeEntries (e :: rest) = e.encode++encodeEntries rest := rfl
    have later := ih (post+e.encode.length)
      ⟨tail,by rw [← List.drop_drop,← eq,cut,List.append_assoc,List.drop_left]⟩
    have content : f.bytes.drop (post+8) = e.name++(leBytes 4 e.value.type++(e.value.encode++(encodeEntries rest++tail))) := by
      rw [← List.drop_drop,← eq,cut,Entry.encode,encodeString]
      simp only [List.append_assoc]
      exact List.drop_left' (leBytes_length 8 _)
    have first : alignsAt ⟨storedKey f post e.name.length,e.value.type,post+(encodeString e.name).length+4⟩ =
        e.aligns := by
      have spelled : (cstr "general.alignment").length = 17 := rfl
      simp only [alignsAt,keyStreq,storedKey,Entry.aligns,spelled,content]
      by_cases cut : u8 e.name.length = 17
      · have long : 17 ≤ e.name.length := by
          have := Nat.mod_le e.name.length (2^8)
          simp only [u8] at cut
          omega
        simp [cut,List.take_append_of_le_length long]
      · simp [cut]
    simp only [recordedKV,List.any_cons,first,later]

theorem alignmentOver_any (f : MappedFile) (first : Nat) (kv : List KV) :
    alignmentOver f first defaultAlignment kv =
      if kv.any alignsAt then alignmentAt f first defaultAlignment else defaultAlignment := by
  have again : ∀ a, alignmentAt f first (alignmentAt f first a) = alignmentAt f first a := by
    intro a
    simp only [alignmentAt]
    split <;> rfl
  have kept : ∀ (kv : List KV) a, alignmentAt f first a = a → alignmentOver f first a kv = a := by
    intro kv
    induction kv with
    | nil => intro a _; rfl
    | cons v rest ih =>
      intro a stable
      simp only [alignmentOver,List.foldl_cons,stable,ite_self] at ih ⊢
      exact ih a stable
  induction kv with
  | nil => rfl
  | cons v rest ih =>
    by_cases aligns : alignsAt v = true
    · simp only [List.any_cons,aligns,Bool.true_or,if_true]
      have start : alignmentOver f first defaultAlignment (v :: rest) =
          alignmentOver f first (alignmentAt f first defaultAlignment) rest := by
        simp only [alignmentOver,List.foldl_cons,aligns,if_true]
      rw [start,kept rest _ (again _)]
    · have start : alignmentOver f first defaultAlignment (v :: rest) = alignmentOver f first defaultAlignment rest := by
        simp only [alignmentOver,List.foldl_cons,aligns]; rfl
      rw [start,ih]
      simp only [List.any_cons,aligns,Bool.false_or]

theorem sections_ahead (l : Layout) (f : MappedFile) (same : f.bytes = l.encode) :
    f.bytes.drop 24 = encodeEntries l.kvs++(encodeInfos l.infos++l.data) := by
  have cut : l.encode = (leBytes 4 ggufMagic++leBytes 4 ggufValidVersion++leBytes 8 l.infos.length++
      leBytes 8 l.kvs.length)++(encodeEntries l.kvs++(encodeInfos l.infos++l.data)) := by
    simp only [Layout.encode,gguf,List.append_assoc]
  rw [same,cut]
  exact List.drop_left' (by simp)

theorem u32_value_length (v : Value) (fits : v.Fits left) (type : v.type = valueUint32) : v.encode.length = 4 := by
  cases left with
  | zero => exact fits.elim
  | succ left =>
    cases v with
    | scalar type' bytes =>
      obtain rfl : type' = valueUint32 := type
      have width : some 4 = some bytes.length := fits
      exact (Option.some.inj width).symm
    | string => simp [Value.type,valueString,valueUint32] at type
    | array => simp [Value.type,valueArray,valueUint32] at type

theorem loaded_alignment (l : Layout) (wf : l.WellFormed) (f : MappedFile) (same : f.bytes = l.encode) :
    (l.loaded f).alignment = l.misreadAlignment := by
  have ahead := sections_ahead l f same
  simp only [Layout.loaded,Layout.misreadAlignment]
  rw [alignmentOver_any,recorded_aligns f l.kvs 24 ⟨_,ahead.symm⟩]
  cases any : l.kvs.any Entry.aligns with
  | false => simp
  | true =>
    cases kvs : l.kvs with
    | nil => simp [kvs] at any
    | cons e rest =>
      rw [kvs] at any ahead
      have values := wf.values
      rw [kvs] at values
      have value : f.bytes.drop (24+(encodeString e.name).length+4) =
          e.value.encode++(encodeEntries rest++(encodeInfos l.infos++l.data)) := by
        have cut : encodeEntries (e :: rest)++(encodeInfos l.infos++l.data) = (encodeString e.name++leBytes 4 e.value.type)++
            (e.value.encode++(encodeEntries rest++(encodeInfos l.infos++l.data))) := by
          simp [encodeEntries,Entry.encode]
        rw [Nat.add_assoc,← List.drop_drop,ahead,cut]
        exact List.drop_left' (by simp)
      have behind : 4 ≤ (e.value.encode++encodeEntries rest).length := by
        cases rest with
        | nil =>
          have aligns : e.aligns = true := by simpa using any
          simp only [Entry.aligns,decide_eq_true_eq] at aligns
          have four := u32_value_length e.value (values e (List.mem_cons_self ..)) aligns.2.2
          simp [four]
        | cons e' more =>
          have room := encodeEntries_room (e' :: more)
          simp only [List.length_cons,List.length_append] at room ⊢
          omega
      have inside : 24+(encodeString e.name).length+4+4 ≤ f.size := by
        have length := congrArg List.length value
        simp only [List.length_drop,List.length_append,MappedFile.size] at length behind ⊢
        omega
      simp only [recordedKV,firstPos,alignmentAt,value,inside,true_and,Layout.firstU32,kvs,if_true]

theorem firstU32_lt (l : Layout) : l.firstU32 < 2^32 := by
  unfold Layout.firstU32
  split
  · decide
  · refine Nat.lt_of_lt_of_le (leNat_lt _) ?_
    calc 256^(List.take 4 _).length ≤ 256^4 := Nat.pow_le_pow_right (by decide) (by simp)
      _ = 2^32 := by decide

theorem misreadAlignment_range (l : Layout) : 0 < l.misreadAlignment ∧ l.misreadAlignment < 2^32 := by
  have small := firstU32_lt l
  unfold Layout.misreadAlignment defaultAlignment
  split <;> omega

theorem alignment_range (l : Layout) (wf : l.WellFormed) : 0 < l.alignment ∧ l.alignment < 2^32 := by
  unfold Layout.alignment
  cases found : l.kvs.find? (fun e => e.name == cstr "general.alignment") with
  | none => decide
  | some e =>
    have named : e.name = cstr "general.alignment" := by simpa using List.find?_some found
    obtain ⟨a,value,positive,small⟩ := wf.alignment e (List.mem_of_find?_eq_some found) named
    obtain ⟨name,v⟩ := e
    obtain rfl : v = .scalar valueUint32 (leBytes 4 a) := value
    simp only [leNat_leBytes 4 a small]
    exact ⟨positive,small⟩

theorem loadedInfos_get (f : MappedFile) (ts : List Info) : ∀ (post i : Nat) (t : Info), ts[i]? = some t →
    ∃ ti, (loadedInfos f post ts)[i]? = some ti ∧ ti.offset = t.offset := by
  induction ts with
  | nil => intro post i t listed; simp at listed
  | cons first rest ih =>
    intro post i t listed
    cases i with
    | zero =>
      obtain rfl : first = t := by simpa using listed
      exact ⟨_,rfl,rfl⟩
    | succ i => simpa [loadedInfos] using ih (post+first.encode.length) i t (by simpa using listed)

def Layout.PointersRight (l : Layout) (m : Model) : Prop :=
  ∀ (i : Nat) (t : Info), l.infos[i]? = some t → ∃ ti : TensorInfo, m.tensor[i]? = some ti ∧
    ti.data = some (u64 (roundUp l.sectionsEnd l.alignment+t.offset))

theorem data_pointers_iff (l : Layout) (f : MappedFile) (m : Model) (wf : l.WellFormed) (same : f.bytes = l.encode)
    (accepted : modelLoad f = .ok m) :
    l.PointersRight m ↔
      l.infos = [] ∨ roundUp l.sectionsEnd l.misreadAlignment = roundUp l.sectionsEnd l.alignment := by
  obtain ⟨s,c,parsed,a⟩ := modelLoad_ok accepted
  obtain ⟨c',run,ended⟩ := modelSections_takes l wf f same
  obtain ⟨rfl,rfl⟩ : l.loaded f = s ∧ c' = c := by simpa [run] using parsed
  have placed := (placed_tensors a).2
  have small := f.size_lt
  have inside : l.sectionsEnd ≤ f.size := by
    simp only [MappedFile.size,same,Layout.encode,gguf,List.length_append,leBytes_length,Layout.sectionsEnd]
    omega
  obtain ⟨misPositive,misSmall⟩ := misreadAlignment_range l
  obtain ⟨positive,little⟩ := alignment_range l wf
  have base : dataBase c'.post (l.loaded f).alignment = roundUp l.sectionsEnd l.misreadAlignment := by
    rw [ended,loaded_alignment l wf f same,dataBase_roundUp misPositive (by omega)]
  have bound : ∀ A, A < 2^32 → roundUp l.sectionsEnd A < 2^64 := by
    intro A below
    have := Nat.div_mul_le_self (l.sectionsEnd+A-1) A
    unfold roundUp
    omega
  have pointer : ∀ (i : Nat) (t : Info), l.infos[i]? = some t → ∃ ti : TensorInfo, m.tensor[i]? = some ti ∧
      ti.data = some (u64 (roundUp l.sectionsEnd l.misreadAlignment+t.offset)) := by
    intro i t listed
    obtain ⟨ti,found,offset⟩ := loadedInfos_get f l.infos (24+(encodeEntries l.kvs).length) i t listed
    refine ⟨ti.place (dataBase c'.post (l.loaded f).alignment),?_,?_⟩
    · rw [placed,List.getElem?_map,show (l.loaded f).tensor[i]? = some ti from found]; rfl
    · simp only [TensorInfo.place,offset,base,Nat.add_comm t.offset]
  constructor
  · intro right
    cases infos : l.infos with
    | nil => exact .inl rfl
    | cons t rest =>
      have head : l.infos[0]? = some t := by simp [infos]
      obtain ⟨ti,found,data⟩ := pointer 0 t head
      obtain ⟨ti',found',data'⟩ := right 0 t head
      obtain rfl : ti = ti' := by simpa [found] using found'
      rw [data] at data'
      have sums := Option.some.inj data'
      have low := bound _ misSmall
      have low' := bound _ little
      simp only [u64] at sums
      exact .inr (by omega)
  · rintro (none | agree) i t listed
    · simp [none] at listed
    · simpa only [agree] using pointer i t listed

def entryU32 (name : String) (v : Nat) : Entry := ⟨cstr name,.scalar valueUint32 (leBytes 4 v)⟩

def secondKeyLayout (first alignment pad : Nat) : Layout :=
  ⟨[entryU32 "a" first,entryU32 "general.alignment" alignment],[⟨cstr "token_embd.weight",[2],0,0⟩],
   List.replicate pad 0⟩

theorem secondKeyLayout_wellFormed (positive : 0 < alignment) (low : alignment < 2^32) :
    (secondKeyLayout first alignment pad).WellFormed := by
  refine ⟨?_,?_,by simp [secondKeyLayout,entryU32]; decide,?_⟩
  · intro e present
    simp only [secondKeyLayout,List.mem_cons,List.not_mem_nil,or_false] at present
    rcases present with rfl | rfl <;> simp [entryU32,Value.Fits,ggufMaxDims,scalarWidth,valueUint32]
  · intro t present
    obtain rfl := List.mem_singleton.mp present
    refine ⟨by decide,by decide,by decide,?_,by decide,by decide⟩
    intro k
    rcases k with _ | k <;> simp
  · intro e present named
    simp only [secondKeyLayout,List.mem_cons,List.not_mem_nil,or_false] at present
    rcases present with rfl | rfl
    · exact absurd (show cstr "a" = cstr "general.alignment" from named) (by decide)
    · exact ⟨alignment,rfl,positive,low⟩

def agreeingFile : MappedFile := ⟨(secondKeyLayout 32 64 13).encode,by decide +kernel⟩

theorem agreeingFile_pointers : ∃ m, modelLoad agreeingFile = .ok m ∧ (secondKeyLayout 32 64 13).PointersRight m := by
  obtain ⟨m,accepted⟩ : ∃ m, modelLoad agreeingFile = .ok m := modelLoad_isOk (by decide +kernel)
  exact ⟨m,accepted,(data_pointers_iff _ agreeingFile m
    (secondKeyLayout_wellFormed (by decide) (by decide)) rfl accepted).mpr (.inr (by decide +kernel))⟩

def misalignedFile : MappedFile := ⟨(secondKeyLayout 96 64 77).encode,by decide +kernel⟩

theorem misalignedFile_pointers : (secondKeyLayout 96 64 77).WellFormed ∧ ∃ m, modelLoad misalignedFile = .ok m ∧
    ¬(secondKeyLayout 96 64 77).PointersRight m := by
  refine ⟨secondKeyLayout_wellFormed (by decide) (by decide),?_⟩
  obtain ⟨m,accepted⟩ : ∃ m, modelLoad misalignedFile = .ok m := modelLoad_isOk (by decide +kernel)
  refine ⟨m,accepted,?_⟩
  intro right
  obtain ⟨ti,found,data⟩ := right 0 _ rfl
  have loaded : (modelLoad misalignedFile).toOption.map (fun m => m.tensor.map TensorInfo.data) = some [some 192] := by
    decide +kernel
  have pointers : m.tensor.map TensorInfo.data = [some 192] := by simpa [accepted,Except.toOption] using loaded
  have first : (m.tensor.map TensorInfo.data)[0]? = some ti.data := by simp [found]
  rw [pointers,data] at first
  exact absurd first (by decide)

end TinyLlama.Gguf
