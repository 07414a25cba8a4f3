import TinyLlama.Gguf.Load

namespace TinyLlama.Gguf
open Load

theorem Load.orExit_ok {p : Parse α} (ok : orExit p c = (.ok a,c')) : p c = (.ok a,c') := by
  unfold orExit at ok
  split at ok
  · simp at ok
  · rename_i run; simpa [run] using ok

theorem Load.orExit_bounded {p : Parse α} (b : p.Bounded slack credit c) :
    (orExit p).Bounded slack credit c := by
  unfold Run.Bounded orExit at *
  split <;> rename_i run <;> rw [run] at b <;> exact b

theorem Load.reject_ok (ok : reject bad exit c = (.ok (),c')) : bad = false ∧ c' = c := by
  unfold reject at ok
  split at ok <;> simp_all

theorem Load.reject_bounded (bad : Bool) (exit : Exit) {c : Cursor} (good : c.Good) :
    (reject bad exit).Bounded 0 0 c := by
  have inside := good.inside
  unfold Run.Bounded reject
  split
  · refine ⟨rfl,good,Nat.le_refl _,rfl,Nat.le_refl _,fun impossible => Bool.noConfusion impossible,?_⟩
    intro _
    change (c.steps : Int) ≤ c.steps+3*((c.size : Int)-c.post)+0
    omega
  · exact Run.bounded_pure (ε:=Exit) () good

theorem readAlignment_bounded (alignment : Nat) {c : Cursor} (good : c.Good) (inside : first ≤ c.size) :
    (readAlignment c.file first alignment).Bounded 0 (-1) c := by
  let tmp : Cursor := {cursorAt c.file first with reads:=c.reads,steps:=c.steps}
  have spent : Spends 1 11 (cursorU32 tmp).1.isOk tmp (cursorU32 tmp).2 := cursorU32_bounded ⟨inside,good.reads⟩
  have steps : (cursorU32 tmp).2.steps = c.steps+1 := cursorU32_steps tmp
  have reads : ∀ r ∈ (cursorU32 tmp).2.reads, r.1+r.2 ≤ c.size := by
    intro r present
    have bound := spent.good.reads r present
    rw [spent.size] at bound
    exact bound
  have after : ∃ a, readAlignment c.file first alignment c =
      (.ok a,{c with reads:=(cursorU32 tmp).2.reads,steps:=(cursorU32 tmp).2.steps}) := by
    unfold readAlignment
    simp only
    split <;> rename_i run <;> exact ⟨_,by rw [show cursorU32 tmp = _ from run]⟩
  obtain ⟨a,after⟩ := after
  unfold Run.Bounded
  rw [after]
  refine ⟨rfl,⟨good.inside,reads⟩,Nat.le_refl _,rfl,?_,?_,fun impossible => Bool.noConfusion impossible⟩
  · change c.steps ≤ (cursorU32 tmp).2.steps
    omega
  intro _
  change ((cursorU32 tmp).2.steps : Int)+(-1) ≤ c.steps+3*((c.post : Int)-c.post)
  omega

theorem kvAlignment_bounded (v first : KV) (alignment : Nat) {c : Cursor} (good : c.Good)
    (inside : first.valuePos ≤ c.size) : (kvAlignment c.file v first alignment).Bounded 0 (-1) c := by
  unfold kvAlignment
  split
  · exact readAlignment_bounded alignment good inside
  · exact (Run.bounded_pure _ good).weaken (by omega) (by omega)

-- One entry pays for its own operations, the alignment read included.
theorem kvLoop_bounded (n : Nat) : ∀ (alignment : Nat) (kv : List KV) (c : Cursor), c.Good →
    (∀ e ∈ kv, e.valuePos ≤ c.size) → (kvLoop c.file n alignment kv).Bounded 1 (22*n) c := by
  induction n with
  | zero => intro alignment kv c good _; exact (Run.bounded_pure _ good).weaken (by omega) (by omega)
  | succ n ih =>
    intro alignment kv c good recorded
    unfold kvLoop
    refine .bind 3 (22*n) (orExit_bounded (cursorKey_bounded good)) ?_
      (by omega) (by omega) (by omega)
    intro key c₁ _ good₁ file₁
    refine .bind 3 (22*n-11) (orExit_bounded (cursorU32_bounded good₁)) ?_
      (by omega) (by omega) (by omega)
    intro type c₂ _ good₂ file₂
    refine .bind 3 (22*n-11) (Run.bounded_position good₂) ?_ (by omega) (by omega) (by omega)
    intro valuePos c₃ here good₃ file₃
    have file : c₃.file = c.file := file₃.trans (file₂.trans file₁)
    have size : c₃.size = c.size := by simp only [Cursor.size,file]
    obtain ⟨rfl,rfl⟩ : c₂.post = valuePos ∧ c₂ = c₃ := by simpa [Run.position] using here
    have inside : c₂.post ≤ c.size := size ▸ good₂.inside
    have recorded' : ∀ e ∈ kv++[⟨key,type,c₂.post⟩], e.valuePos ≤ c.size := by
      intro e present
      rcases List.mem_append.mp present with earlier | new
      · exact recorded e earlier
      · rw [List.mem_singleton.mp new]; exact inside
    have first : (kv.headD ⟨key,type,c₂.post⟩).valuePos ≤ c₂.size := by
      rw [size]
      cases kv with
      | nil => exact inside
      | cons first rest => exact recorded first (List.mem_cons_self ..)
    have aligned := kvAlignment_bounded ⟨key,type,c₂.post⟩ _ alignment good₂ first
    rw [file] at aligned
    refine .bind 2 (22*n-10) aligned ?_ (by omega) (by omega) (by omega)
    intro alignment' c₄ _ good₄ file₄
    refine .bind 1 (22*n) (orExit_bounded (skipValue_bounded _ _ _ good₄)) ?_
      (by omega) (by omega) (by omega)
    intro _ c₅ _ good₅ file₅
    have file' : c₅.file = c.file := file₅.trans (file₄.trans file)
    have rest := ih alignment' (kv++[⟨key,type,c₂.post⟩]) c₅ good₅ (by simpa only [Cursor.size,file'] using recorded')
    rwa [file'] at rest

theorem tensorDims_bounded (n : Nat) : ∀ (nElement : Nat) (c : Cursor), c.Good →
    (tensorDims n nElement).Bounded 1 0 c := by
  induction n with
  | zero => intro nElement c good; exact (Run.bounded_pure _ good).weaken (by omega) (by omega)
  | succ n ih =>
    intro nElement c good
    unfold tensorDims
    refine .next (orExit_bounded (cursorU64_bounded good)) ?_ (by omega) (by omega)
    intro d c₁ _ good₁ _
    refine .next (reject_bounded _ _ good₁) ?_ (by omega) (by omega)
    intro _ c₂ _ good₂ _
    exact .bind 0 0 (ih _ c₂ good₂) (fun _ _ _ good₃ _ => Run.bounded_pure _ good₃)
      (by omega) (by omega) (by omega)

theorem tensorInfo_bounded {c : Cursor} (good : c.Good) : tensorInfo.Bounded 1 22 c := by
  unfold tensorInfo
  refine .bind 1 0 (orExit_bounded (cursorKey_bounded good)) ?_ (by omega) (by omega) (by omega)
  intro key c₁ _ good₁ _
  refine .next (orExit_bounded (cursorU32_bounded good₁)) ?_ (by omega) (by omega)
  intro ndim c₂ _ good₂ _
  refine .next (reject_bounded _ _ good₂) ?_ (by omega) (by omega)
  intro _ c₃ _ good₃ _
  refine .next (tensorDims_bounded ndim 1 c₃ good₃) ?_ (by omega) (by omega)
  intro dims c₄ _ good₄ _
  refine .next (orExit_bounded (cursorU32_bounded good₄)) ?_ (by omega) (by omega)
  intro type c₅ _ good₅ _
  exact .bind 0 0 (orExit_bounded (cursorU64_bounded good₅)) (fun _ _ _ good₆ _ => Run.bounded_pure _ good₆)
    (by omega) (by omega) (by omega)

theorem tensorLoop_bounded (n : Nat) : ∀ c : Cursor, c.Good → (tensorLoop n).Bounded 1 (22*n) c := by
  induction n with
  | zero => intro c good; exact (Run.bounded_pure _ good).weaken (by omega) (by omega)
  | succ n ih =>
    intro c good
    unfold tensorLoop
    refine .bind 1 (22*n) (tensorInfo_bounded good) ?_ (by omega) (by omega) (by omega)
    intro t c₁ _ good₁ _
    exact .bind 0 0 (ih c₁ good₁) (fun _ _ _ good₂ _ => Run.bounded_pure _ good₂)
      (by omega) (by omega) (by omega)

-- What any byte string leaves a cursor with.
structure StaysInside (c c' : Cursor) : Prop where
  file : c'.file = c.file
  position : c'.post ≤ c'.size
  reads : ∀ r ∈ c'.reads, r.1+r.2 ≤ c'.size
  bounded : c'.steps ≤ c.steps+3*c.size+2

theorem Run.Bounded.staysInside {p : Run ε α} {c : Cursor} (b : p.Bounded slack credit c) (small : slack ≤ 2)
    (paid : -2 ≤ credit) : StaysInside c (p c).2 := by
  have inside := b.good.inside
  have size := b.size
  refine ⟨b.file,inside,b.good.reads,?_⟩
  cases ok : (p c).1.isOk with
  | true => have spent := b.done ok; omega
  | false => have spent := b.failed ok; omega

section defined

-- No memset past a block.
def Load.Defined (p : Load α) : Prop := ∀ c, (p c).1 ≠ .error .overrun

theorem Load.Defined.bind {p : Load α} {k : α → Load β} (first : p.Defined) (rest : ∀ a, (k a).Defined) : (p >>= k).Defined := by
  intro c
  have first' := first c
  simp only [Bind.bind]
  cases run : p c with
  | mk result c₁ =>
    rw [run] at first'
    cases result with
    | error e => exact fun same => first' (by rw [Except.error.inj same])
    | ok a => exact rest a c₁

theorem Load.defined_pure (a : α) : (pure a : Load α).Defined := fun _ same => nomatch same

theorem Load.orExit_defined (p : Parse α) : (orExit p).Defined := by
  intro c
  unfold orExit
  split <;> exact fun same => nomatch same

theorem Load.reject_defined (bad : Bool) : (reject bad (.report format args name)).Defined := by
  intro c
  unfold reject
  split <;> exact fun same => nomatch same

theorem kvAlignment_defined (f : MappedFile) (v first : KV) (alignment : Nat) : (kvAlignment f v first alignment).Defined := by
  unfold kvAlignment
  split
  · intro c
    unfold readAlignment
    dsimp only
    split <;> exact fun same => nomatch same
  · exact defined_pure _

theorem kvLoop_defined (f : MappedFile) (n : Nat) : ∀ (alignment : Nat) (kv : List KV), (kvLoop f n alignment kv).Defined := by
  induction n with
  | zero => exact fun _ _ => defined_pure _
  | succ n ih =>
    intro alignment kv
    unfold kvLoop
    refine (orExit_defined _).bind fun key => (orExit_defined _).bind fun type => ?_
    refine Load.Defined.bind (fun c same => nomatch same) fun valuePos => ?_
    refine (kvAlignment_defined f _ _ _).bind fun alignment => ?_
    exact (orExit_defined _).bind fun _ => ih _ _

theorem tensorDims_defined (n : Nat) : ∀ nElement : Nat, (tensorDims n nElement).Defined := by
  induction n with
  | zero => exact fun _ => defined_pure _
  | succ n ih =>
    intro nElement
    unfold tensorDims
    refine (orExit_defined _).bind fun d => (reject_defined _).bind fun _ => ?_
    exact (ih _).bind fun _ => defined_pure _

theorem tensorLoop_defined (n : Nat) : (tensorLoop n).Defined := by
  induction n with
  | zero => exact defined_pure _
  | succ n ih =>
    have each : tensorInfo.Defined := by
      unfold tensorInfo
      refine (orExit_defined _).bind fun key => (orExit_defined _).bind fun ndim => (reject_defined _).bind fun _ => ?_
      refine (tensorDims_defined ndim 1).bind fun dims => (orExit_defined _).bind fun type => ?_
      exact (orExit_defined _).bind fun offset => defined_pure _
    exact each.bind fun t => ih.bind fun rest => defined_pure _

end defined

section tables
variable {set : Nat} {σ : Asctx.State} {answer : Asctx.Fresh} {n entry : Nat}

def blockTotal (total : Nat) : Nat := Asctx.maxalign (u64 (total+Asctx.allocBlockSize+Asctx.allocChunkSize))

-- The table is refused, malloc has no room for it, or it is at most k bytes for each byte of
-- the file and what the free lists hold.
def TableFits (k size : Nat) (regions : List (Nat × Nat)) (answer : Asctx.Fresh) (n entry : Nat) : Prop :=
  let total := Asctx.scallocTotal n entry
  Asctx.scallocRefuses n entry = true ∨
    (total > Asctx.allocChunkLimit ∧ ¬ answer.Fits (blockTotal total) regions) ∨
    (Asctx.Fitting total ∧ total ≤ Asctx.allocChunkLimit+k*size)

theorem TableFits.little (few : Asctx.scallocTotal n entry ≤ Asctx.allocChunkLimit) (k size : Nat) :
    TableFits k size regions answer n entry := by
  have limit : Asctx.allocChunkLimit = 8192 := rfl
  refine .inr (.inr ⟨?_,few.trans (Nat.le_add_right _ _)⟩)
  simp only [Asctx.Fitting,Asctx.allocBlockSize,Asctx.allocChunkSize]
  omega

-- What an answered request leaves to the test.
theorem TableFits.granted (accepted : Asctx.scallocRefuses n entry = false)
    (given : Asctx.scallocTotal n entry > Asctx.allocChunkLimit → answer.Fits (blockTotal (Asctx.scallocTotal n entry)) regions) :
    TableFits k size regions answer n entry ↔ Asctx.Fitting (Asctx.scallocTotal n entry) ∧
      Asctx.scallocTotal n entry ≤ Asctx.allocChunkLimit+k*size := by
  refine ⟨?_,fun fits => .inr (.inr fits)⟩
  rintro (refused | ⟨large,full⟩ | fits)
  · exact absurd (accepted.symm.trans refused) Bool.false_ne_true
  · exact absurd (given large) full
  · exact fits

inductive TableRun (set : Nat) (h : Asctx.Heap) (answer : Asctx.Fresh) (n entry : Nat) (c : Cursor) : Prop
  | refused (run : allocTable set h n entry answer c = (.error (.fatal "Out of memory"),c))
      (fits : ∀ k, TableFits k c.size h.regions answer n entry)
  | granted (h' : Asctx.Heap)
      (run : allocTable set h n entry answer c = (.ok h',{c with cleared:=c.cleared+Asctx.scallocTotal n entry}))
      (fits : ∀ k, TableFits k c.size h.regions answer n entry ↔ Asctx.scallocTotal n entry ≤ Asctx.allocChunkLimit+k*c.size)
  | overrun (run : allocTable set h n entry answer c = (.error .overrun,c))
      (unfit : ∀ k, ¬ TableFits k c.size h.regions answer n entry)

theorem past_top {h : Asctx.Heap} (topped : Asctx.Topped h.regions) (unfit : ¬ Asctx.Fitting total) (aligned : total%8 = 0)
    (low : 56 < p) : ¬ Asctx.Granted total (p,h) := by
  rintro ⟨g,listed,_,high⟩
  have top := topped g listed
  simp only [Asctx.Fitting,Asctx.allocBlockSize,Asctx.allocChunkSize] at unfit
  dsimp only at high
  omega

theorem allocTable_run (reachable : Asctx.Reachable Asctx.mmInitBlockSize set σ) (aligned : Asctx.scallocTotal n entry%8 = 0)
    (c : Cursor) : TableRun set σ.heap answer n entry c := by
  obtain ⟨s,inv,_⟩ := reachable.inv (by decide) (by decide)
  cases accepted : Asctx.scallocRefuses n entry with
  | true =>
    refine .refused ?_ fun k => .inl accepted
    rw [allocTable,Asctx.scalloc,if_pos accepted]
  | false =>
    by_cases large : Asctx.scallocTotal n entry > Asctx.allocChunkLimit
    · rcases Asctx.scalloc_large (h:=σ.heap) (f:=answer) accepted large with ⟨full,ran⟩ | ⟨fits,m,ran⟩
      · refine .refused ?_ fun k => .inr (.inl ⟨large,full⟩)
        rw [allocTable,ran]
      · have only : ∀ k, TableFits k c.size σ.heap.regions answer n entry ↔ Asctx.Fitting (Asctx.scallocTotal n entry) ∧
            Asctx.scallocTotal n entry ≤ Asctx.allocChunkLimit+k*c.size := fun k => TableFits.granted accepted fun _ => fits
        by_cases fitting : Asctx.Fitting (Asctx.scallocTotal n entry)
        · have granted := ((Asctx.scalloc_spec inv fitting).done ran).1
          refine .granted ⟨m,(answer.base,blockTotal (Asctx.scallocTotal n entry)) :: σ.heap.regions⟩ ?_ fun k =>
            (only k).trans (and_iff_right fitting)
          rw [allocTable,ran]
          exact if_pos granted
        · have past : ¬ Asctx.Granted (Asctx.scallocTotal n entry) (answer.base+56,⟨m,_ :: σ.heap.regions⟩) :=
            past_top (reachable.topped.more fits) fitting aligned (Nat.lt_add_of_pos_left fits.1)
          refine .overrun ?_ fun k room => fitting ((only k).mp room).1
          rw [allocTable,ran]
          exact if_neg past
    · have few := Nat.le_of_not_lt large
      have fitting : Asctx.Fitting (Asctx.scallocTotal n entry) := by
        have limit : Asctx.allocChunkLimit = 8192 := rfl
        simp only [Asctx.Fitting,Asctx.allocBlockSize,Asctx.allocChunkSize]
        omega
      have ends := Asctx.scalloc_spec (f:=answer) inv fitting
      cases ran : Asctx.scalloc set σ.heap n entry answer with
      | error e =>
        rw [ran] at ends
        obtain rfl : e = .fatal := ends
        refine .refused ?_ fun k => .little few k _
        rw [allocTable,ran]
      | ok r =>
        rw [ran] at ends
        refine .granted r.2 ?_ fun k => iff_of_true (.little few k _) (few.trans (Nat.le_add_right _ _))
        rw [allocTable,ran]
        exact if_pos ends.1

structure Contained (k : Nat) (c : Cursor) (r : Except Exit α × Cursor) : Prop where
  stays : StaysInside c r.2
  defined : r.1 ≠ .error .overrun
  cleared : r.2.cleared ≤ c.cleared+Asctx.allocChunkLimit+k*c.size

theorem StaysInside.refl {c : Cursor} (good : c.Good) : StaysInside c c := ⟨rfl,good.inside,good.reads,by omega⟩

theorem table_contained_iff {loop : Load α} (reachable : Asctx.Reachable Asctx.mmInitBlockSize set σ)
    (aligned : Asctx.scallocTotal n entry%8 = 0) {c : Cursor} (good : c.Good)
    (bounded : ∀ c₁ : Cursor, c₁.Good → c₁.file = c.file → loop.Bounded 1 0 c₁) (defined : loop.Defined) :
    Contained k c ((do let h ← allocTable set σ.heap n entry answer; let r ← loop; pure (h,r) : Load (Asctx.Heap × α)) c) ↔
      TableFits k c.size σ.heap.regions answer n entry := by
  have run : TableRun set σ.heap answer n entry c := allocTable_run reachable aligned c
  cases run with
  | refused run fits =>
    simp only [Bind.bind,run]
    exact iff_of_true ⟨.refl good,nofun,by dsimp only; omega⟩ (fits k)
  | overrun run unfit =>
    simp only [Bind.bind,run]
    exact iff_of_false (fun contained => contained.defined rfl) (unfit k)
  | granted h' run fits =>
    let c₁ : Cursor := {c with cleared:=c.cleared+Asctx.scallocTotal n entry}
    have whole : (do let r ← loop; pure (h',r) : Load (Asctx.Heap × α)).Bounded 1 0 c₁ :=
      .bind 0 0 (bounded c₁ ⟨good.inside,good.reads⟩ rfl) (fun _ _ _ good₂ _ => Run.bounded_pure _ good₂) (by omega) (by omega) (by omega)
    have stays := whole.staysInside (by omega) (by omega)
    have only : (do let r ← loop; pure (h',r) : Load (Asctx.Heap × α)).Defined := defined.bind fun _ => defined_pure _
    have cleared := whole.cleared
    have ran : (do let h ← allocTable set σ.heap n entry answer; let r ← loop; pure (h,r) : Load (Asctx.Heap × α)) c =
        (do let r ← loop; pure (h',r) : Load (Asctx.Heap × α)) c₁ := by
      simp only [Bind.bind,run]
      rfl
    rw [ran,fits]
    refine ⟨fun contained => ?_,fun few => ⟨⟨stays.file,stays.position,stays.reads,stays.bounded⟩,only c₁,?_⟩⟩
    · have bound := contained.cleared
      rw [cleared] at bound
      simp only [c₁] at bound
      omega
    · rw [cleared]
      simp only [c₁]
      omega

theorem scallocTotal_aligned (n : Nat) (some' : entry ≠ 0) (aligned : entry%8 = 0) : Asctx.scallocTotal n entry%8 = 0 := by
  rw [Asctx.scallocTotal,if_pos some',u64,Nat.mod_mod_of_dvd _ (by decide : 8 ∣ 2^64),Nat.mul_mod,aligned,Nat.mul_zero,Nat.zero_mod]

theorem kvLoad_contained_iff (reachable : Asctx.Reachable Asctx.mmInitBlockSize set σ) {c : Cursor} (good : c.Good) (k nKv : Nat) :
    Contained k c (kvLoad set σ.heap answer c.file nKv c) ↔ TableFits k c.size σ.heap.regions answer nKv sizeofKV := by
  refine table_contained_iff reachable (scallocTotal_aligned nKv (by decide) (by decide)) good ?_ (kvLoop_defined _ _ _ _)
  intro c₁ good₁ file
  rw [← file]
  exact (kvLoop_bounded nKv defaultAlignment [] c₁ good₁ (by simp)).weaken (by omega) (by omega)

theorem tensorLoad_contained_iff (reachable : Asctx.Reachable Asctx.mmInitBlockSize set σ) {c : Cursor} (good : c.Good)
    (k nTensor : Nat) : Contained k c (tensorLoad set σ.heap answer nTensor c) ↔
      TableFits k c.size σ.heap.regions answer nTensor sizeofTensorInfo :=
  table_contained_iff reachable (scallocTotal_aligned nTensor (by decide) (by decide)) good
    (fun c₁ good₁ _ => (tensorLoop_bounded nTensor c₁ good₁).weaken (by omega) (by omega)) (tensorLoop_defined _)

theorem allocTable_ok (run : allocTable set h n entry answer c = (.ok h',c')) :
    c' = {c with cleared:=c.cleared+Asctx.scallocTotal n entry} ∧ Asctx.scallocRefuses n entry = false := by
  unfold allocTable at run
  split at run
  · cases run
  · cases run
  · next r ran =>
    split at run
    · cases run
      refine ⟨rfl,?_⟩
      cases refused : Asctx.scallocRefuses n entry with
      | false => rfl
      | true =>
        rw [Asctx.scalloc,if_pos refused] at ran
        cases ran
    · cases run

theorem allocTable_ample {h : Asctx.Heap} {s : Asctx.Shape} (inv : Asctx.Inv set h s) (accepted : Asctx.scallocRefuses n entry = false)
    (small : Asctx.scallocTotal n entry < 2^63) (ample : Asctx.Ample answer (Asctx.scallocTotal n entry) h.regions) (c : Cursor) :
    ∃ h', allocTable set h n entry answer c = (.ok h',{c with cleared:=c.cleared+Asctx.scallocTotal n entry}) ∧
      (∃ s', Asctx.Inv set h' s') ∧
      ∀ g ∈ h'.regions, g ∈ h.regions ∨ g.1 = answer.base ∧ g.2 ≤ Asctx.scallocTotal n entry+2^33 := by
  obtain ⟨r,ran,granted,kept,added⟩ := Asctx.scalloc_ample inv accepted small ample
  refine ⟨r.2,?_,kept,added⟩
  rw [allocTable,ran]
  exact if_pos granted

end tables

section started

theorem scallocTotal_le (n entry : Nat) (some' : entry ≠ 0) : Asctx.scallocTotal n entry ≤ (n+1)*entry := by
  rw [Asctx.scallocTotal,if_pos some']
  refine (Nat.mod_le _ _).trans (Nat.mul_le_mul_right entry ?_)
  split <;> omega

-- No file has room for more entries.
def maxEntries : Nat := 2^55

theorem few_accepted (few : n ≤ maxEntries) (small : 0 < entry ∧ entry ≤ 136) : Asctx.scallocRefuses n entry = false := by
  refine decide_eq_false ?_
  rintro ⟨_,_,more⟩
  have bound : (2^64-1)/136 ≤ (2^64-1)/entry := Nat.div_le_div_left small.2 small.1
  simp only [maxEntries] at few
  omega

theorem started_reachable : Asctx.Reachable Asctx.mmInitBlockSize startedSet ⟨startedHeap,[]⟩ := by
  have created : Asctx.allocSetMemoryContextCreate ⟨fun _ => 0,[]⟩ Asctx.mmInitBlockSize ⟨startedSet,fun _ => 0⟩ =
      .ok (startedSet,startedHeap) := rfl
  exact .create created

theorem started_kv (few : n ≤ maxEntries) (c : Cursor) : ∃ h',
    allocTable startedSet startedHeap n sizeofKV started.kvAnswer c = (.ok h',{c with cleared:=c.cleared+Asctx.scallocTotal n sizeofKV}) ∧
      (∃ s', Asctx.Inv startedSet h' s') ∧ ∀ g ∈ h'.regions, g.1+g.2 ≤ 2^61 := by
  obtain ⟨s,inv,_⟩ := started_reachable.inv (by decide) (by decide)
  have regions : startedHeap.regions = [(1000,8296)] := rfl
  have total := scallocTotal_le n sizeofKV (by decide)
  simp only [maxEntries,sizeofKV] at few total
  have ample : Asctx.Ample started.kvAnswer (Asctx.scallocTotal n sizeofKV) startedHeap.regions := by
    intro k room
    rw [regions]
    simp only [sizeofKV] at room
    refine ⟨by decide,?_,fun r listed => ?_⟩
    · change 2^20+k < 2^64
      omega
    · rw [List.mem_singleton.mp listed]
      exact .inr (by decide)
  obtain ⟨h',run,kept,added⟩ := allocTable_ample inv (few_accepted few (by decide)) (by simp only [sizeofKV]; omega) ample c
  refine ⟨h',run,kept,fun g listed => ?_⟩
  rcases added g listed with before | ⟨base,room⟩
  · rw [regions] at before
    rw [List.mem_singleton.mp before]
    decide
  · rw [base]
    simp only [sizeofKV] at room
    change 2^20+g.2 ≤ 2^61
    omega

theorem started_tensor {h : Asctx.Heap} (inv : ∃ s, Asctx.Inv startedSet h s) (low : ∀ g ∈ h.regions, g.1+g.2 ≤ 2^61)
    (few : n ≤ maxEntries) (c : Cursor) : ∃ h', allocTable startedSet h n sizeofTensorInfo started.tensorAnswer c =
      (.ok h',{c with cleared:=c.cleared+Asctx.scallocTotal n sizeofTensorInfo}) := by
  obtain ⟨s,inv⟩ := inv
  have total := scallocTotal_le n sizeofTensorInfo (by decide)
  simp only [maxEntries,sizeofTensorInfo] at few total
  have ample : Asctx.Ample started.tensorAnswer (Asctx.scallocTotal n sizeofTensorInfo) h.regions := by
    intro k room
    simp only [sizeofTensorInfo] at room
    refine ⟨by decide,?_,fun r listed => .inr ?_⟩
    · change 2^62+k < 2^64
      omega
    · have top := low r listed
      change r.1+r.2 ≤ 2^62
      omega
  obtain ⟨h',run,_⟩ := allocTable_ample inv (few_accepted few (by decide)) (by simp only [sizeofTensorInfo]; omega) ample c
  exact ⟨h',run⟩

-- A loop that filled its table has met each entry in the file.
theorem entries_few {n : Nat} {loop : Load α} {c : Cursor} (bounded : loop.Bounded 1 (22*n) c) (run : loop c = (.ok r,c')) : n ≤ maxEntries := by
  unfold Run.Bounded at bounded
  rw [run] at bounded
  have spent := bounded.done rfl
  have ticks := bounded.ticks
  have inside := bounded.good.inside
  have small : c'.size < 2^57 := c'.file.size_lt
  dsimp only at spent ticks inside
  simp only [maxEntries]
  omega

theorem Run.Bounded.after {p : Run ε α} {c : Cursor} (b : p.Bounded slack credit c) (run : p c = (r,c')) :
    c'.Good ∧ c'.file = c.file := by
  have good := b.good
  have file := b.file
  rw [run] at good file
  exact ⟨good,file⟩

theorem sectionsLoad_started {c : Cursor} (good : c.Good) (run : sectionsLoad p c.file c = (.ok s,c')) :
    modelSections c.file c = (.ok s,c') := by
  unfold sectionsLoad at run
  obtain ⟨magic,c₁,read₁,run⟩ := Run.bind_ok.mp run
  obtain ⟨good₁,file₁⟩ := (orExit_bounded (cursorU32_bounded good)).after read₁
  obtain ⟨_,c₂,read₂,run⟩ := Run.bind_ok.mp run
  obtain ⟨good₂,file₂⟩ := (reject_bounded _ _ good₁).after read₂
  obtain ⟨version,c₃,read₃,run⟩ := Run.bind_ok.mp run
  obtain ⟨good₃,file₃⟩ := (orExit_bounded (cursorU32_bounded good₂)).after read₃
  obtain ⟨_,c₄,read₄,run⟩ := Run.bind_ok.mp run
  obtain ⟨good₄,file₄⟩ := (reject_bounded _ _ good₃).after read₄
  obtain ⟨nTensor,c₅,read₅,run⟩ := Run.bind_ok.mp run
  obtain ⟨good₅,file₅⟩ := (orExit_bounded (cursorU64_bounded good₄)).after read₅
  obtain ⟨nKv,c₆,read₆,run⟩ := Run.bind_ok.mp run
  obtain ⟨good₆,file₆⟩ := (orExit_bounded (cursorU64_bounded good₅)).after read₆
  have file : c₆.file = c.file := by rw [file₆,file₅,file₄,file₃,file₂,file₁]
  obtain ⟨⟨heap,alignment,kv⟩,c₇,kvs,run⟩ := Run.bind_ok.mp run
  obtain ⟨⟨heap',tensor⟩,c₈,infos,run⟩ := Run.bind_ok.mp run
  obtain ⟨h₁,d₁,table₁,filled₁⟩ := Run.bind_ok.mp kvs
  obtain ⟨r₁,d₁',loop₁,done₁⟩ := Run.bind_ok.mp filled₁
  obtain ⟨same₁,rfl⟩ := Run.pure_ok.mp done₁
  obtain ⟨rfl,_⟩ := allocTable_ok table₁
  -- The two tables again, out of the started process's heap.
  have bounded₁ := kvLoop_bounded nKv defaultAlignment [] {c₆ with cleared:=c₆.cleared+Asctx.scallocTotal nKv sizeofKV}
    ⟨good₆.inside,good₆.reads⟩ (by simp)
  have met := loop₁
  rw [← file] at met
  obtain ⟨good₇,file₇⟩ := bounded₁.after met
  obtain ⟨g₁,kvTable,kept,low⟩ := started_kv (entries_few bounded₁ met) c₆
  obtain ⟨h₂,d₂,table₂,filled₂⟩ := Run.bind_ok.mp infos
  obtain ⟨r₂,d₂',loop₂,done₂⟩ := Run.bind_ok.mp filled₂
  obtain ⟨same₂,rfl⟩ := Run.pure_ok.mp done₂
  obtain ⟨rfl,_⟩ := allocTable_ok table₂
  have bounded₂ := tensorLoop_bounded nTensor {d₁' with cleared:=d₁'.cleared+Asctx.scallocTotal nTensor sizeofTensorInfo}
    ⟨good₇.inside,good₇.reads⟩
  obtain ⟨g₂,infoTable⟩ := started_tensor kept low (entries_few bounded₂ loop₂) d₁'
  obtain ⟨rfl,rfl⟩ := Prod.mk.inj same₁
  obtain ⟨rfl,rfl⟩ := Prod.mk.inj same₂
  refine Run.bind_ok.mpr ⟨magic,c₁,read₁,Run.bind_ok.mpr ⟨_,c₂,read₂,Run.bind_ok.mpr ⟨version,c₃,read₃,Run.bind_ok.mpr ⟨_,c₄,read₄,?_⟩⟩⟩⟩
  refine Run.bind_ok.mpr ⟨nTensor,c₅,read₅,Run.bind_ok.mpr ⟨nKv,c₆,read₆,?_⟩⟩
  refine Run.bind_ok.mpr ⟨(g₁,alignment,kv),d₁',?_,Run.bind_ok.mpr ⟨(g₂,r₂),d₂',?_,run⟩⟩
  · exact Run.bind_ok.mpr ⟨g₁,_,kvTable,Run.bind_ok.mpr ⟨_,_,loop₁,rfl⟩⟩
  · exact Run.bind_ok.mpr ⟨g₂,_,infoTable,Run.bind_ok.mpr ⟨_,_,loop₂,rfl⟩⟩

end started

end TinyLlama.Gguf
