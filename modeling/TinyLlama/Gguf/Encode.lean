import TinyLlama.Gguf.Safety

namespace TinyLlama.Gguf
open LittleEndian Load

inductive Value where
  | scalar (type : Nat) (bytes : List UInt8)
  | string (bytes : List UInt8)
  | array (itemType : Nat) (items : List Value)

def Value.type : Value → Nat
  | .scalar type _ => type
  | .string _ => valueString
  | .array _ _ => valueArray

def encodeString (s : List UInt8) : List UInt8 := leBytes 8 s.length++s

mutual
def Value.encode : Value → List UInt8
  | .scalar _ bytes => bytes
  | .string bytes => encodeString bytes
  | .array itemType items => leBytes 4 itemType++(leBytes 8 items.length++encodeItems items)
def encodeItems : List Value → List UInt8
  | [] => []
  | v :: rest => v.encode++encodeItems rest
end

-- Nesting is counted down: an array at the last level can only be empty.
def Value.Fits : Nat → Value → Prop
  | 0,_ => False
  | _+1,.scalar type bytes => scalarWidth type = some bytes.length
  | _+1,.string bytes => bytes.length < 2^64
  | left+1,.array itemType items =>
    itemType < 2^32 ∧ items.length < 2^64 ∧ ∀ v ∈ items, v.type = itemType ∧ v.Fits left

theorem Value.type_lt (v : Value) (fits : v.Fits left) : v.type < 2^32 := by
  cases left with
  | zero => exact fits.elim
  | succ left =>
    cases v with
    | scalar type bytes =>
      simp only [Value.Fits,scalarWidth] at fits
      simp only [Value.type]
      grind
    | string => simp [Value.type,valueString]
    | array => simp [Value.type,valueArray]

structure Entry where
  name : List UInt8
  value : Value

def Entry.encode (e : Entry) : List UInt8 := encodeString e.name++(leBytes 4 e.value.type++e.value.encode)

def encodeEntries (es : List Entry) : List UInt8 := es.flatMap Entry.encode

structure Info where
  name : List UInt8
  dim : List Nat
  type : Nat
  offset : Nat
deriving Repr,DecidableEq

def encodeDims (dim : List Nat) : List UInt8 := dim.flatMap (leBytes 8)

def Info.encode (t : Info) : List UInt8 :=
  encodeString t.name++(leBytes 4 t.dim.length++(encodeDims t.dim++(leBytes 4 t.type++leBytes 8 t.offset)))

def encodeInfos (ts : List Info) : List UInt8 := ts.flatMap Info.encode

def gguf (nTensor nKv : Nat) (body : List UInt8) : List UInt8 :=
  leBytes 4 ggufMagic++(leBytes 4 ggufValidVersion++(leBytes 8 nTensor++(leBytes 8 nKv++body)))

-- A whole file; `data` is the padding and the data section.
structure Layout where
  kvs : List Entry
  infos : List Info
  data : List UInt8

def Layout.encode (l : Layout) : List UInt8 :=
  gguf l.infos.length l.kvs.length (encodeEntries l.kvs++(encodeInfos l.infos++l.data))

-- What the cursor is about to meet.
def Cursor.Ahead (c : Cursor) (bytes : List UInt8) : Prop := bytes <+: c.file.bytes.drop c.post

-- An operation that succeeds, returns `a` and consumes exactly `bytes`.
def Run.Takes (p : Run ε α) (bytes : List UInt8) (a : α) (c : Cursor) : Prop :=
  ∃ c', p c = (.ok a,c') ∧ c'.Good ∧ c'.file = c.file ∧ c'.post = c.post+bytes.length

theorem Cursor.Ahead.left {c : Cursor} (ahead : c.Ahead (xs++ys)) : c.Ahead xs :=
  (List.prefix_append xs ys).trans ahead

theorem Cursor.Ahead.right {c c₁ : Cursor} (ahead : c.Ahead (xs++ys)) (file : c₁.file = c.file)
    (post : c₁.post = c.post+xs.length) : c₁.Ahead ys := by
  obtain ⟨rest,eq⟩ := ahead
  refine ⟨rest,?_⟩
  rw [file,post,← List.drop_drop,← eq,List.append_assoc,List.drop_left]

theorem Cursor.Ahead.fits {c : Cursor} (ahead : c.Ahead bytes) (good : c.Good) : c.post+bytes.length ≤ c.size := by
  have inside := good.inside
  have length := ahead.length_le
  simp only [List.length_drop] at length
  simp only [Cursor.size,MappedFile.size] at inside ⊢
  omega

theorem Run.takes_pure (a : α) {c : Cursor} (good : c.Good) : (pure a : Run ε α).Takes [] a c :=
  ⟨c,rfl,good,rfl,rfl⟩

theorem Run.takes_position {c : Cursor} (good : c.Good) : (Run.position : Run ε Nat).Takes [] c.post c :=
  ⟨c,rfl,good,rfl,rfl⟩

theorem Run.Takes.bind {p : Run ε α} {k : α → Run ε β} {c : Cursor} (first : p.Takes xs a c) (ahead : c.Ahead (xs++ys))
    (rest : ∀ c₁, c₁.Good → c₁.file = c.file → c₁.post = c.post+xs.length → c₁.Ahead ys → (k a).Takes ys b c₁) :
    (p >>= k).Takes (xs++ys) b c := by
  obtain ⟨c₁,run,good,file,post⟩ := first
  obtain ⟨c₂,run₂,good₂,file₂,post₂⟩ := rest c₁ good file post (ahead.right file post)
  refine ⟨c₂,?_,good₂,file₂.trans file,by rw [post₂,post,List.length_append,Nat.add_assoc]⟩
  simp only [Bind.bind,run]
  exact run₂

theorem Run.Takes.map {p : Run ε α} {c : Cursor} (f : α → β) (t : p.Takes bytes a c) :
    (p >>= fun a => pure (f a)).Takes bytes (f a) c := by
  obtain ⟨c₁,run,good,file,post⟩ := t
  refine ⟨c₁,?_,good,file,post⟩
  simp only [Bind.bind,run]
  rfl

theorem cursorHas_takes (n : Nat) {c : Cursor} (good : c.Good) (fits : c.post+n ≤ c.size) :
    cursorHas n c = (.ok (),c.tick) := by
  rcases cursorHas_cases good n with ⟨_,ok⟩ | ⟨past,_⟩
  · exact ok
  · omega

theorem cursorRead_takes {c : Cursor} (good : c.Good) (ahead : c.Ahead bytes) :
    (cursorRead bytes.length).Takes bytes bytes c := by
  have fits := ahead.fits good
  have passed := cursorHas_takes _ good fits
  have spent := cursorRead_bounded good bytes.length
  refine ⟨(c.tick.touch bytes.length).advance bytes.length,?_,?_,rfl,advance_post fits⟩
  · simp only [cursorRead,Bind.bind,passed]
    refine Prod.ext (congrArg Except.ok ?_) rfl
    obtain ⟨rest,eq⟩ := ahead
    change (c.file.bytes.drop c.post).take bytes.length = bytes
    rw [← eq,List.take_left]
  · have good' := spent.good
    simpa only [cursorRead,Bind.bind,passed] using good'

theorem cursorU32_takes {c : Cursor} (good : c.Good) (small : v < 2^32) (ahead : c.Ahead (leBytes 4 v)) :
    cursorU32.Takes (leBytes 4 v) v c := by
  have read : (cursorRead 4).Takes (leBytes 4 v) (leBytes 4 v) c := by
    simpa only [leBytes_length] using cursorRead_takes good ahead
  have t := read.map leNat
  rwa [leNat_leBytes 4 v small] at t

theorem cursorU64_takes {c : Cursor} (good : c.Good) (small : v < 2^64) (ahead : c.Ahead (leBytes 8 v)) :
    cursorU64.Takes (leBytes 8 v) v c := by
  have read : (cursorRead 8).Takes (leBytes 8 v) (leBytes 8 v) c := by
    simpa only [leBytes_length] using cursorRead_takes good ahead
  have t := read.map leNat
  rwa [leNat_leBytes 8 v small] at t

-- The key a string becomes: its length is cut to 8 bits, its bytes are not.
def storedKey (f : MappedFile) (post length : Nat) : Key := ⟨u8 length,f.bytes.drop (post+8)⟩

theorem cursorKey_takes {c : Cursor} (good : c.Good) (ahead : c.Ahead (encodeString name)) :
    cursorKey.Takes (encodeString name) (storedKey c.file c.post name.length) c := by
  have inside := ahead.fits good
  have small := c.file.size_lt
  have length : name.length < 2^64 := by
    simp only [encodeString,List.length_append,leBytes_length,Cursor.size] at inside
    omega
  refine (cursorU64_takes good length ahead.left).bind ahead ?_
  intro c₁ good₁ file₁ post₁ ahead₁
  have fits := ahead₁.fits good₁
  have passed := cursorHas_takes _ good₁ fits
  have post₁ : c₁.post = c.post+8 := by simpa using post₁
  refine ⟨(c₁.tick.touch name.length).advance name.length,?_,?_,rfl,advance_post fits⟩
  · simp only [Bind.bind,passed]
    refine Prod.ext (congrArg Except.ok ?_) rfl
    change (⟨u8 name.length,c₁.file.bytes.drop c₁.post⟩ : Key) = _
    rw [file₁,post₁]; rfl
  · have good₂ := (advance_bounded (ε:=Unit) () good₁.tick fits (.inr rfl)).good
    exact good₂

theorem cursorSkip_takes {c : Cursor} (good : c.Good) (ahead : c.Ahead bytes) :
    (cursorSkip bytes.length).Takes bytes () c := by
  have fits := ahead.fits good
  have passed := cursorHas_takes _ good fits
  refine ⟨c.tick.advance bytes.length,?_,?_,rfl,advance_post fits⟩
  · simp only [cursorSkip,Bind.bind,passed]
  · exact (advance_bounded (ε:=Unit) () good.tick fits (.inl rfl)).good

theorem skipItems_takes (item : Parse Unit) (items : List Value)
    (each : ∀ v ∈ items, ∀ c : Cursor, c.Good → c.Ahead v.encode → item.Takes v.encode () c) :
    ∀ c : Cursor, c.Good → c.Ahead (encodeItems items) →
      (skipItems item items.length).Takes (encodeItems items) () c := by
  induction items with
  | nil => intro c good _; exact Run.takes_pure () good
  | cons v rest ih =>
    intro c good ahead
    simp only [encodeItems] at ahead ⊢
    refine (each v (List.mem_cons_self ..) c good ahead.left).bind ahead ?_
    intro c₁ good₁ _ _ ahead₁
    exact ih (fun w present => each w (List.mem_cons_of_mem _ present)) c₁ good₁ ahead₁

theorem Run.Takes.ticked {p : Run ε α} {c : Cursor} (t : p.Takes bytes a c.tick) :
    Run.Takes (fun c => p c.tick) bytes a c := t

theorem skipValue_takes (left : Nat) : ∀ (v : Value), v.Fits left → ∀ c : Cursor, c.Good → c.Ahead v.encode →
    (skipValue left v.type).Takes v.encode () c := by
  induction left with
  | zero => intro v fits; exact fits.elim
  | succ left ih =>
    intro v fits c good ahead
    cases v with
    | scalar type bytes =>
      simp only [Value.Fits] at fits
      have run : skipValue (left+1) type = fun c => cursorSkip bytes.length c.tick := by
        funext c; simp only [skipValue,fits]
      simp only [Value.type,Value.encode,run] at ahead ⊢
      exact (cursorSkip_takes good.tick ahead).ticked
    | string bytes =>
      have run : skipValue (left+1) valueString = fun c => (do let _ ← cursorKey) c.tick := by
        funext c; simp only [skipValue]; rfl
      simp only [Value.type,Value.encode,run] at ahead ⊢
      exact ((cursorKey_takes good.tick ahead).map fun _ => ()).ticked
    | array itemType items =>
      obtain ⟨small,count,each⟩ := fits
      have run : skipValue (left+1) valueArray = fun c => (do
          let itemType ← cursorU32
          let len ← cursorU64
          skipItems (skipValue left itemType) len) c.tick := by
        funext c; simp only [skipValue]; rfl
      simp only [Value.type,Value.encode,run] at ahead ⊢
      refine Run.Takes.ticked ((cursorU32_takes good.tick small ahead.left).bind ahead ?_)
      intro c₁ good₁ _ _ ahead₁
      refine (cursorU64_takes good₁ count ahead₁.left).bind ahead₁ ?_
      intro c₂ good₂ _ _ ahead₂
      refine skipItems_takes _ items ?_ c₂ good₂ ahead₂
      intro w present c₃ good₃ ahead₃
      obtain ⟨same,inner⟩ := each w present
      exact same ▸ ih w inner c₃ good₃ ahead₃

theorem cursorSkipValue_takes (v : Value) (depth : Nat) (fits : v.Fits (ggufMaxDims+1-depth)) {c : Cursor}
    (good : c.Good) (ahead : c.Ahead v.encode) : (cursorSkipValue v.type depth).Takes v.encode () c :=
  skipValue_takes _ v fits c good ahead

theorem Load.orExit_takes {p : Parse α} {c : Cursor} (t : p.Takes bytes a c) : (orExit p).Takes bytes a c := by
  obtain ⟨c₁,run,good,file,post⟩ := t
  exact ⟨c₁,by simp only [orExit,run],good,file,post⟩

theorem Load.reject_takes (exit : Exit) {c : Cursor} (good : c.Good) (fine : bad = false) :
    (reject bad exit).Takes [] () c := ⟨c,by simp [reject,fine],good,rfl,rfl⟩

def recordedKV (f : MappedFile) : Nat → List Entry → List KV
  | _,[] => []
  | post,e :: rest =>
    ⟨storedKey f post e.name.length,e.value.type,post+(encodeString e.name).length+4⟩ ::
      recordedKV f (post+e.encode.length) rest

theorem recordedKV_length (f : MappedFile) (es : List Entry) (post : Nat) :
    (recordedKV f post es).length = es.length := by
  induction es generalizing post with
  | nil => rfl
  | cons e rest ih => simp [recordedKV,ih]

-- The alignment after a read at `at'`: zero, or the end of the file, keeps it.
def alignmentAt (f : MappedFile) (at' alignment : Nat) : Nat :=
  let value := leNat ((f.bytes.drop at').take 4)
  if at'+4 ≤ f.size ∧ value ≠ 0 then value else alignment

def alignsAt (v : KV) : Bool := keyStreq v.key "general.alignment" ∧ v.type = valueUint32

def firstPos : List KV → Nat
  | [] => 0
  | v :: _ => v.valuePos

def alignmentOver (f : MappedFile) (first alignment : Nat) (kv : List KV) : Nat :=
  kv.foldl (fun a v => if alignsAt v then alignmentAt f first a else a) alignment

theorem readAlignment_takes (first alignment : Nat) {c : Cursor} (good : c.Good) (inside : first ≤ c.size) :
    (readAlignment c.file first alignment).Takes [] (alignmentAt c.file first alignment) c := by
  have bound := readAlignment_bounded alignment good inside
  let tmp : Cursor := {cursorAt c.file first with reads:=c.reads,steps:=c.steps}
  have tmpGood : tmp.Good := ⟨inside,good.reads⟩
  by_cases fits : first+4 ≤ c.file.size
  · have passed : cursorHas 4 tmp = (.ok (),tmp.tick) := cursorHas_takes 4 tmpGood fits
    have read : cursorU32 tmp = (.ok (leNat ((c.file.bytes.drop first).take 4)),(tmp.tick.touch 4).advance 4) := by
      simp only [cursorU32,cursorRead,Bind.bind,passed]; rfl
    have run : readAlignment c.file first alignment c = (.ok (alignmentAt c.file first alignment),
        {c with reads:=((tmp.tick.touch 4).advance 4).reads,steps:=((tmp.tick.touch 4).advance 4).steps}) := by
      simp only [readAlignment,alignmentAt,fits,true_and]
      rw [show cursorU32 {cursorAt c.file first with reads:=c.reads,steps:=c.steps} = _ from read]
    refine ⟨_,run,?_,rfl,rfl⟩
    have good' := bound.good
    rwa [run] at good'
  · have failed : ∃ c', cursorU32 tmp = (.error (),c') := by
      rcases cursorHas_cases tmpGood 4 with ⟨within,_⟩ | ⟨_,error,stopped⟩
      · exact absurd within fits
      · exact ⟨{tmp.tick with error:=error},by simp only [cursorU32,cursorRead,Bind.bind,stopped]⟩
    obtain ⟨c',failed⟩ := failed
    have run : readAlignment c.file first alignment c = (.ok (alignmentAt c.file first alignment),
        {c with reads:=c'.reads,steps:=c'.steps}) := by
      simp only [readAlignment,alignmentAt,fits,false_and,if_false]
      rw [show cursorU32 {cursorAt c.file first with reads:=c.reads,steps:=c.steps} = _ from failed]
    refine ⟨_,run,?_,rfl,rfl⟩
    have good' := bound.good
    rwa [run] at good'

theorem kvAlignment_takes (v first : KV) (alignment : Nat) {c : Cursor} (good : c.Good)
    (inside : first.valuePos ≤ c.size) : (kvAlignment c.file v first alignment).Takes []
      (if alignsAt v then alignmentAt c.file first.valuePos alignment else alignment) c := by
  unfold kvAlignment
  by_cases aligns : keyStreq v.key "general.alignment" = true ∧ v.type = valueUint32
  · rw [if_pos aligns,if_pos (by simpa [alignsAt] using aligns)]
    exact readAlignment_takes _ _ good inside
  · rw [if_neg aligns,if_neg (by simpa [alignsAt] using aligns)]
    exact Run.takes_pure _ good

theorem kvLoop_takes (es : List Entry) : ∀ (alignment : Nat) (kv : List KV) (c : Cursor), c.Good →
    (∀ v ∈ kv, v.valuePos ≤ c.size) → (∀ e ∈ es, e.value.Fits (ggufMaxDims+1)) → c.Ahead (encodeEntries es) →
    (kvLoop c.file es.length alignment kv).Takes (encodeEntries es)
      (alignmentOver c.file (firstPos (kv++recordedKV c.file c.post es)) alignment (recordedKV c.file c.post es),
        kv++recordedKV c.file c.post es) c := by
  induction es with
  | nil =>
    intro alignment kv c good _ _ _
    have done := Run.takes_pure (ε:=Exit) (alignment,kv) good
    simpa [recordedKV,alignmentOver,encodeEntries,kvLoop] using done
  | cons e rest ih =>
    intro alignment kv c good recorded fits ahead
    have listed : encodeEntries (e :: rest) = encodeString e.name++(leBytes 4 e.value.type++([]++([]++(e.value.encode++encodeEntries rest)))) := by
      simp [encodeEntries,Entry.encode]
    rw [listed] at ahead ⊢
    have typed : e.value.type < 2^32 := e.value.type_lt (fits e (List.mem_cons_self ..))
    unfold kvLoop
    refine (orExit_takes (cursorKey_takes good ahead.left)).bind ahead ?_
    intro c₁ good₁ file₁ post₁ ahead₁
    refine (orExit_takes (cursorU32_takes good₁ typed ahead₁.left)).bind ahead₁ ?_
    intro c₂ good₂ file₂ post₂ ahead₂
    refine (Run.takes_position good₂).bind ahead₂ ?_
    intro c₃ good₃ file₃ post₃ ahead₃
    have here : c₂.post = c.post+(encodeString e.name).length+4 := by rw [post₂,post₁,leBytes_length]
    have file : c₃.file = c.file := file₃.trans (file₂.trans file₁)
    have at₃ : c₃.post = c₂.post := post₃
    rw [here]
    generalize stored : (⟨storedKey c.file c.post e.name.length,e.value.type,
      c.post+(encodeString e.name).length+4⟩ : KV) = v
    have position : v.valuePos = c₂.post := by rw [← stored,here]
    have size : c₃.size = c.size := by simp only [Cursor.size,file]
    have recorded' : ∀ w ∈ kv++[v], w.valuePos ≤ c.size := by
      intro w present
      rcases List.mem_append.mp present with earlier | new
      · exact recorded w earlier
      · rw [List.mem_singleton.mp new,position,← at₃,← size]; exact good₃.inside
    have first : (kv.headD v).valuePos = firstPos (kv++recordedKV c.file c.post (e :: rest)) := by
      cases kv <;> simp [firstPos,recordedKV,← stored]
    have inside : (kv.headD v).valuePos ≤ c₃.size := by
      rw [size]
      cases kv with
      | nil => exact recorded' v (by simp)
      | cons w _ => exact recorded w (List.mem_cons_self ..)
    have aligned := kvAlignment_takes v (kv.headD v) alignment good₃ inside
    rw [file] at aligned
    refine aligned.bind ahead₃ ?_
    intro c₄ good₄ file₄ post₄ ahead₄
    refine (orExit_takes (cursorSkipValue_takes e.value 0 (fits e (List.mem_cons_self ..)) good₄ ahead₄.left)).bind ahead₄ ?_
    intro c₅ good₅ file₅ post₅ ahead₅
    have file' : c₅.file = c.file := file₅.trans (file₄.trans file)
    have next : c₅.post = c.post+e.encode.length := by
      have at₄ : c₄.post = c₃.post := post₄
      rw [post₅,at₄,at₃,here]
      simp only [Entry.encode,List.length_append,leBytes_length]
      omega
    have done := ih (if alignsAt v then alignmentAt c.file (kv.headD v).valuePos alignment else alignment) (kv++[v])
      c₅ good₅ (by simpa only [Cursor.size,file'] using recorded')
      (fun e present => fits e (List.mem_cons_of_mem _ present)) ahead₅
    rw [file',next] at done
    have whole : kv++recordedKV c.file c.post (e :: rest) = kv++[v]++recordedKV c.file (c.post+e.encode.length) rest := by
      simp [recordedKV,stored]
    have folded : alignmentOver c.file (firstPos (kv++recordedKV c.file c.post (e :: rest))) alignment
        (recordedKV c.file c.post (e :: rest)) =
        alignmentOver c.file (firstPos (kv++[v]++recordedKV c.file (c.post+e.encode.length) rest))
          (if alignsAt v then alignmentAt c.file (kv.headD v).valuePos alignment else alignment)
          (recordedKV c.file (c.post+e.encode.length) rest) := by
      rw [first,← whole]
      simp only [recordedKV,stored,alignmentOver,List.foldl_cons]
    rw [folded,whole]
    exact done

-- Each entry has at least its length prefix, so the count fits the allocator.
theorem encodeEntries_room (es : List Entry) : 8*es.length ≤ (encodeEntries es).length := by
  induction es with
  | nil => simp [encodeEntries]
  | cons e rest ih =>
    simp only [encodeEntries,List.flatMap_cons,List.length_append,Entry.encode,encodeString,leBytes_length,
      List.length_cons] at ih ⊢
    omega

theorem kvLoad_takes {set : Nat} (es : List Entry) {c : Cursor} (fits : ∀ e ∈ es, e.value.Fits (ggufMaxDims+1))
    (ahead : c.Ahead (encodeEntries es)) (table : (allocTable set h es.length sizeofKV answer).Takes [] h' c) :
    (kvLoad set h answer c.file es.length).Takes (encodeEntries es)
      (h',alignmentOver c.file (firstPos (recordedKV c.file c.post es)) defaultAlignment (recordedKV c.file c.post es),
        recordedKV c.file c.post es) c := by
  have whole : c.Ahead ([]++encodeEntries es) := ahead
  refine table.bind whole ?_
  intro c₁ good₁ file₁ post₁ ahead₁
  have done := kvLoop_takes es defaultAlignment [] c₁ good₁ (by simp) fits ahead₁
  rw [file₁,show c₁.post = c.post from post₁] at done
  exact done.map fun r => (h',r)

theorem allocTable_takes {set : Nat} {c : Cursor} (good : c.Good) (run : allocTable set h n entry answer c = (.ok h',{c with cleared:=m})) :
    (allocTable set h n entry answer).Takes [] h' c := ⟨_,run,⟨good.inside,good.reads⟩,rfl,rfl⟩

def valueStart (post : Nat) (es : List Entry) (i : Nat) (e : Entry) : Nat :=
  post+(encodeEntries (es.take i)).length+((encodeString e.name).length+4)

theorem recordedKV_own (f : MappedFile) (es : List Entry) : ∀ (post : Nat), encodeEntries es <+: f.bytes.drop post →
    ∀ i e, es[i]? = some e → ∃ v, (recordedKV f post es)[i]? = some v ∧ v.type = e.value.type ∧
      v.valuePos = valueStart post es i e ∧ e.value.encode <+: f.bytes.drop v.valuePos := by
  induction es with
  | nil => intro post _ i e listed; simp at listed
  | cons first rest ih =>
    intro post ahead i e listed
    have cut : encodeEntries (first :: rest) = first.encode++encodeEntries rest := rfl
    have after : encodeEntries rest <+: f.bytes.drop (post+first.encode.length) := by
      obtain ⟨tail,eq⟩ := ahead
      exact ⟨tail,by rw [← List.drop_drop,← eq,cut,List.append_assoc,List.drop_left]⟩
    cases i with
    | zero =>
      obtain rfl : first = e := by simpa using listed
      refine ⟨_,rfl,rfl,by simp [valueStart,encodeEntries,Nat.add_assoc],?_⟩
      obtain ⟨tail,eq⟩ := ahead
      refine ⟨encodeEntries rest++tail,?_⟩
      have header : (encodeString first.name++leBytes 4 first.value.type).length =
          (encodeString first.name).length+4 := by simp
      rw [Nat.add_assoc,← List.drop_drop,← eq,cut,Entry.encode,← header]
      simp only [← List.append_assoc]
      rw [List.append_assoc,List.append_assoc,List.append_assoc,List.drop_left]
    | succ i =>
      obtain ⟨v,found,type,position,own⟩ := ih (post+first.encode.length) after i e (by simpa using listed)
      refine ⟨v,by simpa [recordedKV] using found,type,?_,own⟩
      rw [position]
      simp only [valueStart,List.take_succ_cons,encodeEntries,List.flatMap_cons,List.length_append]
      omega

-- At most k bytes of a table are cleared for each byte of the file, past what the free lists hold.
structure MetadataBounded (k set : Nat) (h : Asctx.Heap) (answer : Asctx.Fresh) (c : Cursor) (nKv nTensor : Nat) : Prop where
  skip : ∀ n, StaysInside c (cursorSkip n c).2
  read : ∀ n, StaysInside c (cursorRead n c).2
  key : StaysInside c (cursorKey c).2
  value : ∀ type depth, StaysInside c (cursorSkipValue type depth c).2
  kv : Contained k c (kvLoad set h answer c.file nKv c)
  tensor : Contained k c (tensorLoad set h answer nTensor c)
  advances : ∀ (v : Value) depth, v.Fits (ggufMaxDims+1-depth) → c.Ahead v.encode →
    ∃ c', cursorSkipValue v.type depth c = (.ok (),c') ∧ c'.post = c.post+v.encode.length
  recorded : ∀ es : List Entry, (∀ e ∈ es, e.value.Fits (ggufMaxDims+1)) → c.Ahead (encodeEntries es) →
    (kvLoad set h answer c.file es.length c).1 = .error (.fatal "Out of memory") ∨
    ∃ h' alignment kv c', kvLoad set h answer c.file es.length c = (.ok (h',alignment,kv),c') ∧ kv.length = es.length ∧
      ∀ i e, es[i]? = some e → ∃ v, kv[i]? = some v ∧ v.type = e.value.type ∧
        v.valuePos = valueStart c.post es i e ∧ e.value.encode <+: c.file.bytes.drop v.valuePos

theorem entries_fit (es : List Entry) {c : Cursor} (good : c.Good) (ahead : c.Ahead (encodeEntries es)) :
    TableFits 4 c.size regions answer es.length sizeofKV := by
  have room := encodeEntries_room es
  have inside := ahead.fits good
  have small : c.size < 2^57 := c.file.size_lt
  have total := scallocTotal_le es.length sizeofKV (by decide)
  have limit : Asctx.allocChunkLimit = 8192 := rfl
  refine .inr (.inr ⟨?_,?_⟩)
  · simp only [Asctx.Fitting,Asctx.allocBlockSize,Asctx.allocChunkSize,sizeofKV] at total ⊢
    omega
  · simp only [sizeofKV] at total ⊢
    omega

theorem metadata_bounded_iff {set : Nat} (c : Cursor) (good : c.Good) (reachable : Asctx.Reachable Asctx.mmInitBlockSize set σ)
    (answer : Asctx.Fresh) (k nKv nTensor : Nat) : MetadataBounded k set σ.heap answer c nKv nTensor ↔
      TableFits k c.size σ.heap.regions answer nKv sizeofKV ∧ TableFits k c.size σ.heap.regions answer nTensor sizeofTensorInfo := by
  constructor
  · intro bounded
    exact ⟨(kvLoad_contained_iff reachable good k nKv).mp bounded.kv,(tensorLoad_contained_iff reachable good k nTensor).mp bounded.tensor⟩
  rintro ⟨kvFits,infoFits⟩
  refine ⟨?_,?_,?_,?_,(kvLoad_contained_iff reachable good k nKv).mpr kvFits,(tensorLoad_contained_iff reachable good k nTensor).mpr infoFits,?_,?_⟩
  · intro n; exact (cursorSkip_bounded good n).staysInside (by omega) (by omega)
  · intro n; exact (cursorRead_bounded good n).staysInside (by omega) (by omega)
  · exact (cursorKey_bounded good).staysInside (by omega) (by omega)
  · intro type depth; exact (skipValue_bounded _ type c good).staysInside (by omega) (by omega)
  · intro v depth fits ahead
    obtain ⟨c',run,_,_,post⟩ := cursorSkipValue_takes v depth fits good ahead
    exact ⟨c',run,post⟩
  · intro es fits ahead
    have run : TableRun set σ.heap answer es.length sizeofKV c :=
      allocTable_run reachable (scallocTotal_aligned es.length (by decide) (by decide)) c
    cases run with
    | refused run _ =>
      refine .inl ?_
      simp only [kvLoad,Bind.bind,run]
    | overrun run unfit => exact absurd (entries_fit es good ahead) (unfit 4)
    | granted h' run _ =>
      obtain ⟨c',ran,_,_,_⟩ := kvLoad_takes es fits ahead (allocTable_takes good run)
      exact .inr ⟨h',_,_,c',ran,recordedKV_length _ es _,recordedKV_own c.file es c.post ahead⟩

def stringsFile : MappedFile :=
  ⟨encodeEntries [⟨cstr "tags",.array valueString [.string (cstr "hi"),.string []]⟩]++List.replicate 100 0,by decide +kernel⟩

theorem stringsFile_bounded : MetadataBounded 32 startedSet startedHeap Asctx.nextAnswer (cursorAt stringsFile 0) 300 70 ∧
    ∃ c', cursorSkipValue valueArray 0 (cursorAt stringsFile 16) = (.ok (),c') ∧ c'.post = 46 := by
  have good : ∀ {post}, post ≤ stringsFile.size → (cursorAt stringsFile post).Good :=
    fun inside => ⟨inside,fun _ impossible => nomatch impossible⟩
  have size : stringsFile.size = 146 := by decide +kernel
  have kvs : ∀ post, TableFits 32 (cursorAt stringsFile post).size startedHeap.regions Asctx.nextAnswer 300 sizeofKV :=
    fun post => .inr (.inr ⟨by unfold Asctx.Fitting; decide,by rw [show (cursorAt stringsFile post).size = 146 from size]; decide⟩)
  have infos : ∀ post, TableFits 32 (cursorAt stringsFile post).size startedHeap.regions Asctx.nextAnswer 70 sizeofTensorInfo :=
    fun post => .inr (.inr ⟨by unfold Asctx.Fitting; decide,by rw [show (cursorAt stringsFile post).size = 146 from size]; decide⟩)
  refine ⟨(metadata_bounded_iff _ (good (by omega)) started_reachable _ 32 300 70).mpr ⟨kvs 0,infos 0⟩,?_⟩
  have bounded := (metadata_bounded_iff (cursorAt stringsFile 16) (good (by omega)) started_reachable Asctx.nextAnswer 32 300 70).mpr
    ⟨kvs 16,infos 16⟩
  have value : (Value.array valueString [.string (cstr "hi"),.string []]).Fits (ggufMaxDims+1) := by
    simp [Value.Fits,Value.type,valueString,ggufMaxDims,cstr]
  exact bounded.advances (.array valueString [.string (cstr "hi"),.string []]) 0 value ⟨List.replicate 100 0,by decide +kernel⟩

-- A header that counts 2^59-1 entries, in 32 bytes of file.
def tablesHeader : MappedFile := ⟨gguf 0 (2^59-1) (List.replicate 8 0),by decide⟩

-- Of 2^59-1 entries the block's total wraps; 2^30 are 32 GiB to clear.
theorem tablesHeader_overruns : Asctx.Reachable Asctx.mmInitBlockSize startedSet ⟨startedHeap,[]⟩ ∧
    (sectionsLoad ⟨startedSet,startedHeap,Asctx.nextAnswer,Asctx.nextAnswer⟩ tablesHeader (cursorAt tablesHeader 0)).1 = .error .overrun ∧
    (∀ k, ¬ MetadataBounded k startedSet startedHeap Asctx.nextAnswer (cursorAt tablesHeader 24) (2^59-1) 0) ∧
    ¬ MetadataBounded (2^29) startedSet startedHeap Asctx.nextAnswer (cursorAt tablesHeader 24) (2^30) 0 := by
  have good : (cursorAt tablesHeader 24).Good := ⟨by decide,fun _ impossible => nomatch impossible⟩
  refine ⟨started_reachable,by decide +kernel,fun k bounded => ?_,fun bounded => ?_⟩
  · have fits := (kvLoad_contained_iff started_reachable good k (2^59-1)).mp bounded.kv
    have only := (TableFits.granted (by decide) (fun _ => by decide)).mp fits
    exact absurd only.1 (by unfold Asctx.Fitting; decide)
  · have fits := (kvLoad_contained_iff started_reachable good (2^29) (2^30)).mp bounded.kv
    have only := (TableFits.granted (by decide) (fun _ => by decide)).mp fits
    exact absurd only.2 (by decide)

end TinyLlama.Gguf
