import TinyLlama.Gguf.Encode
import TinyLlama.Gguf.Weights

namespace TinyLlama.Gguf
open LittleEndian Load

-- The overflow test of the dimension loop makes its product exact.
theorem tensorDims_ok (n : Nat) : ∀ (nElement : Nat) (c c' : Cursor) (dim : List Nat), nElement < 2^64 →
    tensorDims n nElement c = (.ok (dim,total),c') → total = nElement*dim.prod ∧ total < 2^64 := by
  induction n with
  | zero =>
    intro nElement c c' dim small run
    obtain ⟨same,_⟩ := Run.pure_ok.mp run
    obtain ⟨rfl,rfl⟩ := Prod.mk.inj same
    simpa using small
  | succ n ih =>
    intro nElement c c' dim small run
    obtain ⟨d,c₁,read,run⟩ := Run.bind_ok.mp run
    obtain ⟨_,c₂,checked,run⟩ := Run.bind_ok.mp run
    obtain ⟨⟨rest,total'⟩,c₃,loop,done⟩ := Run.bind_ok.mp run
    obtain ⟨same,_⟩ := Run.pure_ok.mp done
    obtain ⟨rfl,rfl⟩ := Prod.mk.inj same
    have fine := (reject_ok checked).1
    simp only [ne_eq,gt_iff_lt,decide_eq_false_iff_not,not_and,not_lt] at fine
    have fits : nElement*d < 2^64 := by
      by_cases zero : d = 0
      · simp [zero]
      · have room := (Nat.le_div_iff_mul_le (Nat.pos_of_ne_zero zero)).mp (fine zero)
        simp only [uint64Max] at room
        omega
    obtain ⟨product,bound⟩ := ih (u64 (nElement*d)) c₂ c₃ rest (u64_lt _) loop
    rw [u64_of_lt fits] at product
    exact ⟨by rw [product,List.prod_cons,Nat.mul_assoc],bound⟩

-- What tensor_load guarantees of each entry it returns.
structure TensorInfo.Parsed (t : TensorInfo) : Prop where
  elements : t.nElement = t.dim.prod
  small : t.nElement < 2^64
  bytes : t.bytes = (tensorBytes t.type t.nElement).getD 0

theorem swapDims_prod (dim : List Nat) : (swapDims dim).prod = dim.prod := by
  unfold swapDims
  split
  · simp [Nat.mul_comm]
  · rfl

theorem tensorInfo_ok (run : tensorInfo c = (.ok t,c')) : t.Parsed := by
  obtain ⟨key,_,_,run⟩ := Run.bind_ok.mp run
  obtain ⟨ndim,_,_,run⟩ := Run.bind_ok.mp run
  obtain ⟨_,_,_,run⟩ := Run.bind_ok.mp run
  obtain ⟨⟨dim,nElement⟩,_,dims,run⟩ := Run.bind_ok.mp run
  obtain ⟨type,_,_,run⟩ := Run.bind_ok.mp run
  obtain ⟨offset,_,_,run⟩ := Run.bind_ok.mp run
  obtain ⟨rfl,_⟩ := Run.pure_ok.mp run
  obtain ⟨product,small⟩ := tensorDims_ok ndim 1 _ _ dim (by decide) dims
  rw [Nat.one_mul] at product
  exact ⟨by rw [swapDims_prod,product],small,rfl⟩

theorem tensorLoop_ok (n : Nat) : ∀ (c c' : Cursor) (tensor : List TensorInfo), tensorLoop n c = (.ok tensor,c') →
    ∀ t ∈ tensor, t.Parsed := by
  induction n with
  | zero =>
    intro c c' tensor run t present
    obtain ⟨rfl,_⟩ := Run.pure_ok.mp run
    simp at present
  | succ n ih =>
    intro c c' tensor run t present
    obtain ⟨first,c₁,one,run⟩ := Run.bind_ok.mp run
    obtain ⟨rest,c₂,loop,done⟩ := Run.bind_ok.mp run
    obtain ⟨rfl,rfl⟩ := Run.pure_ok.mp done
    rcases List.mem_cons.mp present with rfl | later
    · exact tensorInfo_ok one
    · exact ih c₁ c₂ rest loop t later

theorem modelSections_ok (run : modelSections f c = (.ok s,c')) : ∀ t ∈ s.tensor, t.Parsed := by
  unfold modelSections sectionsLoad at run
  obtain ⟨_,_,_,run⟩ := Run.bind_ok.mp run
  obtain ⟨_,_,_,run⟩ := Run.bind_ok.mp run
  obtain ⟨version,_,_,run⟩ := Run.bind_ok.mp run
  obtain ⟨_,_,_,run⟩ := Run.bind_ok.mp run
  obtain ⟨nTensor,_,_,run⟩ := Run.bind_ok.mp run
  obtain ⟨nKv,_,_,run⟩ := Run.bind_ok.mp run
  obtain ⟨⟨_,alignment,kv⟩,_,_,run⟩ := Run.bind_ok.mp run
  obtain ⟨⟨_,tensor⟩,_,loaded,done⟩ := Run.bind_ok.mp run
  obtain ⟨rfl,_⟩ := Run.pure_ok.mp done
  obtain ⟨_,c₁,_,loaded⟩ := Run.bind_ok.mp loaded
  obtain ⟨filled,c₂,loop,done⟩ := Run.bind_ok.mp loaded
  obtain ⟨same,_⟩ := Run.pure_ok.mp done
  obtain ⟨_,rfl⟩ := Prod.mk.inj same
  exact tensorLoop_ok nTensor c₁ c₂ filled loop

-- model_load split into what it accepted.
structure Accepted (f : MappedFile) (m : Model) (s : Sections) (post : Nat) : Prop where
  large : 32 ≤ f.size
  detected : modelDetectArch (placeTensors f s post) = .ok m
  complete : modelCompletenessCheck m = .ok ()

theorem modelLoad_ok (accepted : modelLoad f = .ok m) :
    ∃ s c, modelSections f (cursorAt f 0) = (.ok s,c) ∧ Accepted f m s c.post := by
  rw [modelLoad_eq] at accepted
  by_cases small : f.size < 32
  · simp [small,throw,throwThe,MonadExceptOf.throw,Bind.bind,Except.bind] at accepted
  · cases run : modelSections f (cursorAt f 0) with
    | mk result c =>
      cases result with
      | error e => simp [small,run,throw,throwThe,MonadExceptOf.throw] at accepted
      | ok s =>
        simp only [small,run,if_false,pure,Except.pure] at accepted
        cases arch : modelDetectArch (placeTensors f s c.post) with
        | error e => simp [arch,Bind.bind,Except.bind] at accepted
        | ok m' =>
          cases check : modelCompletenessCheck m' with
          | error e => simp [arch,check,Bind.bind,Except.bind] at accepted
          | ok u =>
            simp only [arch,check,Bind.bind,Except.bind,Except.ok.injEq] at accepted
            subst accepted
            exact ⟨s,c,rfl,by omega,arch,check⟩

-- A load that some state of the allocator lets through is the load of a process just started.
theorem modelLoadIn_started (accepted : modelLoadIn p f = .ok m) : modelLoad f = .ok m := by
  have good : (cursorAt f 0).Good := ⟨Nat.zero_le _,fun _ impossible => nomatch impossible⟩
  rw [modelLoad_eq]
  unfold modelLoadIn at accepted
  cases run : sectionsLoad p f (cursorAt f 0) with
  | mk result c =>
    rw [run] at accepted
    cases result with
    | error e =>
      by_cases small : f.size < 32 <;> simp [small,throw,throwThe,MonadExceptOf.throw,Bind.bind,Except.bind] at accepted
    | ok s =>
      have same : modelSections f (cursorAt f 0) = (.ok s,c) := sectionsLoad_started (c:=cursorAt f 0) good run
      simp only [same]
      exact accepted

theorem modelLoad_isOk (loads : (modelLoad f).isOk = true) : ∃ m, modelLoad f = .ok m := by
  cases run : modelLoad f with
  | error e => simp [run,Except.isOk,Except.toBool] at loads
  | ok m => exact ⟨m,rfl⟩

theorem modelDetectArch_keeps (detected : modelDetectArch m = .ok m') :
    m'.file = m.file ∧ m'.tensor = m.tensor ∧ m'.kv = m.kv := by
  unfold modelDetectArch at detected
  split at detected
  · simp only [Except.ok.injEq] at detected; subst detected; exact ⟨rfl,rfl,rfl⟩
  · split at detected
    · simp at detected
    · simp only [Except.ok.injEq] at detected; subst detected; exact ⟨rfl,rfl,rfl⟩

theorem modelCompletenessCheck_ok (complete : modelCompletenessCheck m = .ok ()) :
    splitCheck m = .ok () ∧ missingTop m = none ∧ missingLayer m = none ∧ ∀ t ∈ m.tensor, exceedsFile m t = false := by
  unfold modelCompletenessCheck at complete
  simp only [Bind.bind,Except.bind,throw,throwThe,MonadExceptOf.throw,pure,Except.pure] at complete
  cases split : splitCheck m with
  | error e => simp [split] at complete
  | ok u =>
    cases top : missingTop m with
    | some e => simp [split,top] at complete
    | none =>
      cases layer : missingLayer m with
      | some le => simp [split,top,layer] at complete
      | none =>
        cases outside : m.tensor.find? (exceedsFile m) with
        | some t => simp [split,top,layer,outside] at complete
        | none =>
          refine ⟨rfl,rfl,rfl,?_⟩
          intro t present
          have within := List.find?_eq_none.mp outside t present
          simpa using within

theorem placed_tensors (a : Accepted f m s post) :
    m.file = f ∧ m.tensor = s.tensor.map (TensorInfo.place (dataBase post s.alignment)) := by
  obtain ⟨file,tensor,_⟩ := modelDetectArch_keeps a.detected
  exact ⟨file,tensor⟩

theorem modelLoad_file (accepted : modelLoad f = .ok m) : m.file = f := by
  obtain ⟨s,c,_,a⟩ := modelLoad_ok accepted
  exact (placed_tensors a).1

-- In exact integers: the blocks of the tensor's elements, and where they start.
def exactBytes (info : GGUFTypeInfo) (t : TensorInfo) : Nat :=
  (t.dim.prod+info.blockElems-1)/info.blockElems*info.blockBytes

def PayloadInside (f : MappedFile) (base : Nat) (t : TensorInfo) : Prop :=
  ∃ info, tensorType t.type = some info ∧ base+t.offset+exactBytes info t ≤ f.size

-- The 64-bit computation of tensor_bytes and of the start goes through: a known
-- type, no carry in the rounding, the product and the sum.
structure SizeFits (base : Nat) (t : TensorInfo) (info : GGUFTypeInfo) : Prop where
  known : tensorType t.type = some info
  rounding : t.dim.prod+info.blockElems-1 < 2^64
  blocks : (t.dim.prod+info.blockElems-1)/info.blockElems ≤ uint64Max/info.blockBytes
  start : base+t.offset < 2^64

theorem ggufTypes_sane : ∀ entry ∈ ggufTypes, ∀ info, entry = some info →
    0 < info.blockElems ∧ info.blockElems ≤ 256 ∧ 0 < info.blockBytes ∧ info.blockElems ≤ 8*info.blockBytes := by
  decide

theorem tensorType_sane (known : tensorType type = some info) :
    0 < info.blockElems ∧ info.blockElems ≤ 256 ∧ 0 < info.blockBytes ∧ info.blockElems ≤ 8*info.blockBytes := by
  unfold tensorType at known
  cases listed : ggufTypes[type]? with
  | none => simp [listed] at known
  | some entry =>
    rw [listed] at known
    exact ggufTypes_sane entry (List.mem_of_getElem? listed) info known

theorem tensorBytes_exact (sane : 0 < info.blockBytes) (fits : SizeFits base t info) :
    tensorBytes t.type t.dim.prod = some (exactBytes info t) := by
  have room := (Nat.le_div_iff_mul_le sane).mp fits.blocks
  simp only [uint64Max] at room
  unfold tensorBytes exactBytes
  simp only [fits.known,u64_of_lt fits.rounding]
  rw [if_neg (by have := fits.blocks; omega),u64_of_lt (by omega)]

-- A payload inside a file cannot carry: a block of at most 256 elements takes at
-- least an eighth of that in bytes, and files are shorter than 2^57.
theorem inside_fits {f : MappedFile} (known : tensorType t.type = some info) (inside : base+t.offset+exactBytes info t ≤ f.size) :
    SizeFits base t info := by
  obtain ⟨someElems,fewElems,someBytes,dense⟩ := tensorType_sane known
  have small := f.size_lt
  set blocks := (t.dim.prod+info.blockElems-1)/info.blockElems with split
  have covered : t.dim.prod ≤ info.blockElems*blocks := by
    have whole := Nat.div_add_mod (t.dim.prod+info.blockElems-1) info.blockElems
    have rest := Nat.mod_lt (t.dim.prod+info.blockElems-1) someElems
    rw [← split] at whole
    omega
  have sized : blocks*info.blockBytes ≤ f.size := by
    have size : exactBytes info t = blocks*info.blockBytes := rfl
    omega
  have elements : info.blockElems*blocks ≤ 8*(blocks*info.blockBytes) :=
    calc info.blockElems*blocks ≤ 8*info.blockBytes*blocks := Nat.mul_le_mul_right _ dense
      _ = 8*(blocks*info.blockBytes) := by ring
  refine ⟨known,by omega,?_,by omega⟩
  rw [← split,Nat.le_div_iff_mul_le someBytes]
  simp only [uint64Max]
  omega

theorem payload_inside_iff (parsed : t.Parsed) (file : m.file = f)
    (passed : exceedsFile m (t.place base) = false) :
    PayloadInside f base t ↔ ∃ info, SizeFits base t info := by
  constructor
  · rintro ⟨info,known,inside⟩
    exact ⟨info,inside_fits known inside⟩
  · rintro ⟨info,fits⟩
    have bytes : t.bytes = exactBytes info t := by
      rw [parsed.bytes,parsed.elements,tensorBytes_exact (tensorType_sane fits.known).2.2.1 fits]; rfl
    have start : u64 (t.offset+base) = base+t.offset := by
      rw [u64_of_lt (by have := fits.start; omega)]; omega
    simp only [exceedsFile,TensorInfo.place,start,bytes,file,gt_iff_lt,decide_eq_false_iff_not,not_or,not_lt]
      at passed
    exact ⟨info,fits.known,by omega⟩

theorem accepted_payloads_inside (f : MappedFile) (m : Model) (s : Sections) (c : Cursor)
    (accepted : modelLoad f = .ok m) (parsed : modelSections f (cursorAt f 0) = (.ok s,c)) :
    (∀ t ∈ s.tensor, PayloadInside f (dataBase c.post s.alignment) t) ↔
      ∀ t ∈ s.tensor, ∃ info, SizeFits (dataBase c.post s.alignment) t info := by
  obtain ⟨s',c',parsed',a⟩ := modelLoad_ok accepted
  obtain ⟨rfl,rfl⟩ : s = s' ∧ c = c' := by simpa [parsed'] using parsed.symm
  obtain ⟨file,placed⟩ := placed_tensors a
  have passed := (modelCompletenessCheck_ok a.complete).2.2.2
  have each : ∀ t ∈ s.tensor, (PayloadInside f (dataBase c.post s.alignment) t ↔
      ∃ info, SizeFits (dataBase c.post s.alignment) t info) := by
    intro t present
    refine payload_inside_iff (modelSections_ok parsed t present) file (passed _ ?_)
    rw [placed]
    exact List.mem_map_of_mem present
  constructor
  · intro inside t present; exact (each t present).mp (inside t present)
  · intro fits t present; exact (each t present).mpr (fits t present)

-- One vector named token_embd.weight, at offset 0 of a data section that starts at 96.
def vectorBytes (n type : Nat) (payload : List UInt8) : List UInt8 :=
  Layout.encode ⟨[],[⟨cstr "token_embd.weight",[n],type,0⟩],List.replicate 23 0++payload⟩

def floatsFile : MappedFile := ⟨vectorBytes 2 0 [0,0,128,63,0,0,0,64],by decide⟩

theorem floatsFile_payload_inside : ∃ m s c, modelLoad floatsFile = .ok m ∧
    modelSections floatsFile (cursorAt floatsFile 0) = (.ok s,c) ∧
    ∀ t ∈ s.tensor, PayloadInside floatsFile (dataBase c.post s.alignment) t := by
  obtain ⟨m,accepted⟩ : ∃ m, modelLoad floatsFile = .ok m := modelLoad_isOk (by decide +kernel)
  obtain ⟨s,c,parsed,_⟩ := modelLoad_ok accepted
  have listed : (modelSections floatsFile (cursorAt floatsFile 0)).1 =
      .ok ⟨3,32,[],[⟨⟨17,floatsFile.bytes.drop 32⟩,1,[2],0,0,none,2,8,0⟩]⟩ := by decide +kernel
  have ended : (modelSections floatsFile (cursorAt floatsFile 0)).2.post = 73 := by decide +kernel
  rw [parsed] at listed ended
  obtain rfl := Except.ok.inj listed
  refine ⟨m,_,c,accepted,parsed,(accepted_payloads_inside _ _ _ _ accepted parsed).mpr ?_⟩
  intro t present
  simp only at ended
  rw [List.mem_singleton.mp present,ended]
  exact ⟨⟨1,4⟩,rfl,by decide,by decide,by decide⟩

-- A q4_k vector of 2^64-1 elements: rounding up to whole blocks carries, so the
-- stored size is 0 and the check passes with the file ending at the data section.
def roundingFile : MappedFile := ⟨vectorBytes (2^64-1) 12 [],by decide⟩

theorem roundingFile_payload_outside : ∃ m s c, modelLoad roundingFile = .ok m ∧
    modelSections roundingFile (cursorAt roundingFile 0) = (.ok s,c) ∧
    ¬∀ t ∈ s.tensor, PayloadInside roundingFile (dataBase c.post s.alignment) t := by
  obtain ⟨m,accepted⟩ : ∃ m, modelLoad roundingFile = .ok m := modelLoad_isOk (by decide +kernel)
  obtain ⟨s,c,parsed,_⟩ := modelLoad_ok accepted
  have listed : (modelSections roundingFile (cursorAt roundingFile 0)).1 =
      .ok ⟨3,32,[],[⟨⟨17,roundingFile.bytes.drop 32⟩,1,[2^64-1],12,0,none,2^64-1,0,0⟩]⟩ := by decide +kernel
  rw [parsed] at listed
  obtain rfl := Except.ok.inj listed
  refine ⟨m,_,c,accepted,parsed,?_⟩
  intro inside
  obtain ⟨info,known,fits⟩ := inside _ (List.mem_singleton.mpr rfl)
  obtain rfl : (⟨256,144⟩ : GGUFTypeInfo) = info := Option.some.inj known
  have small := roundingFile.size_lt
  simp only [exactBytes,List.prod_cons,List.prod_nil] at fits
  omega

end TinyLlama.Gguf
