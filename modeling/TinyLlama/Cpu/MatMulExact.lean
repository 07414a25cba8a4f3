import TinyLlama.Cpu.MatMul
import TinyLlama.Graph.Orientation
import TinyLlama.Lib.Cells
import TinyLlama.Pthreads.Invariant

namespace TinyLlama.Cpu
open Gguf Quants Access Interleave TinyLlama.Sweep Cells

section Arith

theorem place_row {n i j : Nat} (small : j < n) : (i*n+j)/n = i := by
  rw [Nat.mul_comm,Nat.mul_add_div (Nat.zero_lt_of_lt small),Nat.div_eq_of_lt small,Nat.add_zero]

theorem mapM_some {α β : Type} {f : α → Option β} {g : α → β} {l : List α} (all : ∀ a ∈ l,f a = some (g a)) :
    l.mapM f = some (l.map g) := by
  induction l with
  | nil => rfl
  | cons a rest ih =>
    rw [List.mapM_cons,all a List.mem_cons_self,ih fun a listed => all a (List.mem_cons_of_mem _ listed)]
    rfl

end Arith

section Chunk
variable {K : Type} [Field K]

-- Element (o, ci) of the matrix that multiplies, o < rows.
def Weight.entry (w : Weight K) (cols : Nat) (trans : Bool) (o ci : Nat) : K :=
  value (ggufDequant w.tensor.type (if trans then ci*w.tc+o else o*cols+ci)) w.source

structure Stored (w : Weight K) (rows cols : Nat) (trans : Bool) : Prop where
  accepts : w.accepts rows cols trans = true
  elements : w.tensor.nElement = rows*cols

def dequantised (w : Weight K) (cols : Nat) (trans : Bool) (r0 wRow : Nat) : Cell → (Cell → K) → K
  | .row p,_ => w.entry cols trans (r0+(p-wRow)/cols) ((p-wRow)%cols)
  | _,_ => 0

def multiplied (cols batch wRow tmp : Nat) : Cell → (Cell → K) → K
  | .tmp p,m => product cols batch (slice .row wRow m) (slice .xT 0 m) ((p-tmp)/batch) ((p-tmp)%batch)
  | _,_ => 0

def copied (batch rows r0 tmp : Nat) : Cell → (Cell → K) → K
  | .y p,m => m (.tmp (tmp+((p%rows-r0)*batch+p/rows)))
  | _,_ => 0

def fillPieces (trans : Bool) (cols nchunk wRow : Nat) : List (List Cell) :=
  (List.range nchunk).flatMap fun r =>
    if trans then (List.range cols).map fun ci => [.row (wRow+r*cols+ci)]
    else [(List.range cols).map fun ci => .row (wRow+r*cols+ci)]

def tilePieces (avx2 : Bool) (nchunk batch tmp : Nat) : List (List Cell) :=
  (kernelCells avx2 nchunk batch).map fun cells => cells.map fun q => .tmp (tmp+(q.1*batch+q.2))

def copyPieces (batch rows r0 nchunk : Nat) : List (List Cell) :=
  (List.range nchunk).flatMap fun r => (List.range batch).map fun b => [.y (b*rows+(r0+r))]

section Steps
variable {w : Weight K} {rows cols batch r0 r1 wRow tmp : Nat} {trans : Bool}

omit [Field K] in
theorem Stored.inside (stored : Stored w rows cols trans) {o ci : Nat} (row : o < rows) (column : ci < cols) :
    (if trans then ci*w.tc+o else o*cols+ci) < w.tensor.nElement := by
  have accepts := stored.accepts
  rw [stored.elements]
  cases trans with
  | true =>
    simp only [Weight.accepts,if_true,Bool.and_eq_true,decide_eq_true_eq] at accepts ⊢
    rw [accepts.2.2,Nat.mul_comm rows]
    exact row_below column row
  | false => exact row_below row column

theorem fillRow_eq (stored : Stored w rows cols trans) (wide : 0 < cols) {r : Nat} (row : r0+r < rows) :
    fillRow w cols trans (wRow+r*cols) (r0+r) = some ((if trans then (List.range cols).map fun ci => [Cell.row (wRow+r*cols+ci)]
      else [(List.range cols).map fun ci => .row (wRow+r*cols+ci)]).map (puts (dequantised w cols trans r0 wRow))) := by
  have entry : ∀ ci < cols,∀ m,dequantised w cols trans r0 wRow (.row (wRow+r*cols+ci)) m = w.entry cols trans (r0+r) ci := by
    intro ci small m
    have place : wRow+r*cols+ci-wRow = r*cols+ci := by omega
    simp only [dequantised,place,place_row small,Nat.mul_add_mod_of_lt small]
  unfold fillRow
  cases trans with
  | true =>
    rw [if_pos rfl,if_pos rfl,List.map_map]
    refine mapM_some fun ci listed => ?_
    have small := List.mem_range.mp listed
    have inside := stored.inside row small
    rw [if_pos rfl] at inside
    have read : tensorGetF32 w.source w.tensor (ci*w.tc+(r0+r)) = some (w.entry cols true (r0+r) ci) := if_neg (not_le.mpr inside)
    rw [read]
    exact congrArg some (update_puts fun m => (entry ci small m).symm)
  | false =>
    have fits : ¬ ((r0+r)*cols+cols > w.tensor.nElement ∨ cols = 0) := by
      have next := Nat.mul_le_mul_right cols (Nat.succ_le_of_lt row)
      rw [Nat.succ_mul] at next
      rw [stored.elements]
      omega
    have read : tensorGetF32Batch w.source w.tensor ((r0+r)*cols) cols = some (ggufDequantBatch w.source w.tensor.type ((r0+r)*cols) cols) :=
      if_neg fits
    rw [if_neg Bool.false_ne_true,if_neg Bool.false_ne_true,read]
    refine congrArg (fun step => some [step]) ?_
    funext m c
    unfold puts
    cases c with
    | row p =>
      rw [ggufDequantBatch_splice]
      by_cases here : wRow+r*cols ≤ p ∧ p < wRow+r*cols+cols
      · obtain ⟨ci,rfl⟩ := Nat.exists_eq_add_of_le here.1
        have small : ci < cols := by omega
        rw [if_pos (List.mem_map.mpr ⟨ci,List.mem_range.mpr small,rfl⟩),entry ci small]
        simp [splice,small,Weight.entry]
      · have foreign : Cell.row p ∉ (List.range cols).map fun ci => Cell.row (wRow+r*cols+ci) := by
          intro listed
          obtain ⟨ci,below,same⟩ := List.mem_map.mp listed
          have small := List.mem_range.mp below
          injection same with same
          omega
        rw [if_neg foreign]
        dsimp only
        split
        · next low =>
          rw [splice,if_neg (by omega),slice,Nat.add_sub_cancel' low]
        · rfl
    | _ => simp

theorem tileStep_eq {nchunk : Nat} (tall : 0 < nchunk) (wide : 0 < cols) (some' : 0 < batch) :
    (mulMatMat w.avx2 nchunk cols batch).map (tileStep wRow tmp) =
      (tilePieces w.avx2 nchunk batch tmp).map (puts (multiplied (K:=K) cols batch wRow tmp)) := by
  rw [mulMatMat_stores w.avx2 tall wide some',List.map_map,tilePieces,List.map_map]
  refine List.map_congr_left fun cells listed => ?_
  funext m
  change (stores cols batch (slice .row wRow m) (slice .xT 0 m) cells).foldl _ m = _
  rw [stores,List.foldl_map]
  refine stores_puts (fun q : Nat × Nat => Cell.tmp (tmp+(q.1*batch+q.2)))
    (fun q m => product cols batch (slice .row wRow m) (slice .xT 0 m) q.1 q.2) (fun q place m => ?_) m
  have inside := (kernelCells_perm w.avx2 nchunk batch).mem_iff.mp (List.mem_flatten.mpr ⟨cells,listed,place⟩)
  obtain ⟨i,_,column⟩ := List.mem_flatMap.mp inside
  obtain ⟨j,below,rfl⟩ := List.mem_map.mp column
  have small := List.mem_range.mp below
  simp only [multiplied,Nat.add_sub_cancel_left,place_row small,Nat.mul_add_mod_of_lt small]

theorem copy_eq {nchunk : Nat} (inside : r0+nchunk ≤ rows) :
    ((List.range nchunk).flatMap fun r => (List.range batch).map fun b =>
      fun m : Cell → K => Function.update m (.y (b*rows+(r0+r))) (m (.tmp (tmp+(r*batch+b))))) =
      (copyPieces batch rows r0 nchunk).map (puts (copied batch rows r0 tmp)) := by
  unfold copyPieces
  rw [List.map_flatMap]
  refine List.flatMap_congr fun r below => ?_
  rw [List.map_map]
  refine List.map_congr_left fun b _ => update_puts fun m => ?_
  have small : r0+r < rows := by
    have := List.mem_range.mp below
    omega
  simp only [copied,place_row small,Nat.mul_add_mod_of_lt small,Nat.add_sub_cancel_left]

theorem chunkSteps_eq (stored : Stored w rows cols trans) (wide : 0 < cols) (some' : 0 < batch) (start : r0 < r1) (inside : r1 ≤ rows) :
    chunkSteps w batch rows cols trans r0 r1 wRow tmp = some ((fillPieces trans cols (r1-r0) wRow).map (puts (dequantised w cols trans r0 wRow))++
      (tilePieces w.avx2 (r1-r0) batch tmp).map (puts (multiplied cols batch wRow tmp))++
      (copyPieces batch rows r0 (r1-r0)).map (puts (copied batch rows r0 tmp))) := by
  have filled := mapM_some (l:=List.range (r1-r0)) fun r below => by
    have small := List.mem_range.mp below
    exact (fillRow_eq stored wide (by omega) : fillRow w cols trans (wRow+r*cols) (r0+r) = _)
  unfold chunkSteps
  dsimp only
  rw [filled,tileStep_eq (by omega) wide some',copy_eq (by omega)]
  refine congrArg some ?_
  rw [fillPieces,List.map_flatMap,List.flatMap_def]

theorem mem_fillPieces {nchunk : Nat} {c : Cell} : c ∈ (fillPieces trans cols nchunk wRow).flatten ↔
    ∃ r < nchunk,∃ ci < cols,c = .row (wRow+r*cols+ci) := by
  unfold fillPieces
  rw [List.mem_flatten]
  cases trans <;> simp only [List.mem_flatMap,List.mem_map,List.mem_range,if_true,if_false,Bool.false_eq_true,List.mem_singleton]
  · constructor
    · rintro ⟨_,⟨r,below,rfl⟩,listed⟩
      obtain ⟨ci,small,rfl⟩ := List.mem_map.mp listed
      exact ⟨r,below,ci,List.mem_range.mp small,rfl⟩
    · rintro ⟨r,below,ci,small,rfl⟩
      exact ⟨_,⟨r,below,rfl⟩,List.mem_map.mpr ⟨ci,List.mem_range.mpr small,rfl⟩⟩
  · constructor
    · rintro ⟨_,⟨r,below,ci,small,rfl⟩,listed⟩
      exact ⟨r,below,ci,small,List.mem_singleton.mp listed⟩
    · rintro ⟨r,below,ci,small,rfl⟩
      exact ⟨_,⟨r,below,ci,small,rfl⟩,List.mem_singleton_self _⟩

theorem mem_tilePieces {avx2 : Bool} {nchunk : Nat} {c : Cell} : c ∈ (tilePieces avx2 nchunk batch tmp).flatten ↔
    ∃ r < nchunk,∃ b < batch,c = .tmp (tmp+(r*batch+b)) := by
  have cover : ∀ q,q ∈ (kernelCells avx2 nchunk batch).flatten ↔ ∃ r < nchunk,∃ b < batch,(r,b) = q := by
    intro q
    rw [(kernelCells_perm avx2 nchunk batch).mem_iff]
    simp [rowCells]
  unfold tilePieces
  rw [← List.map_flatten,List.mem_map]
  constructor
  · rintro ⟨q,listed,rfl⟩
    obtain ⟨r,below,b,small,rfl⟩ := (cover q).mp listed
    exact ⟨r,below,b,small,rfl⟩
  · rintro ⟨r,below,b,small,rfl⟩
    exact ⟨(r,b),(cover _).mpr ⟨r,below,b,small,rfl⟩,rfl⟩

theorem mem_copyPieces {nchunk : Nat} {c : Cell} : c ∈ (copyPieces batch rows r0 nchunk).flatten ↔
    ∃ r < nchunk,∃ b < batch,c = .y (b*rows+(r0+r)) := by
  unfold copyPieces
  rw [List.mem_flatten]
  constructor
  · rintro ⟨cells,listed,member⟩
    obtain ⟨r,below,inner⟩ := List.mem_flatMap.mp listed
    obtain ⟨b,small,rfl⟩ := List.mem_map.mp inner
    exact ⟨r,List.mem_range.mp below,b,List.mem_range.mp small,List.mem_singleton.mp member⟩
  · rintro ⟨r,below,b,small,rfl⟩
    exact ⟨_,List.mem_flatMap.mpr ⟨r,List.mem_range.mpr below,List.mem_map.mpr ⟨b,List.mem_range.mpr small,rfl⟩⟩,List.mem_singleton_self _⟩

structure Ran (w : Weight K) (rows cols batch : Nat) (trans : Bool) (r0 r1 : Nat) (m m' : Cell → K) : Prop where
  products : ∀ o,r0 ≤ o → o < r1 → ∀ b < batch,
    m' (.y (b*rows+o)) = ∑ t ∈ Finset.range cols,w.entry cols trans o t*m (.xT (t*batch+b))
  others : ∀ p,¬(r0 ≤ p%rows ∧ p%rows < r1) → m' (.y p) = m (.y p)
  input : ∀ p,m' (.xT p) = m (.xT p)

theorem chunk_ran (inside : r1 ≤ rows) (m : Cell → K) : Ran w rows cols batch trans r0 r1 m
    (exec ((fillPieces trans cols (r1-r0) wRow).map (puts (dequantised w cols trans r0 wRow))++
      (tilePieces w.avx2 (r1-r0) batch tmp).map (puts (multiplied cols batch wRow tmp))++
      (copyPieces batch rows r0 (r1-r0)).map (puts (copied batch rows r0 tmp))) m) := by
  rw [exec_append,exec_append]
  set m₁ := exec ((fillPieces trans cols (r1-r0) wRow).map (puts (dequantised w cols trans r0 wRow))) m with filled
  set m₂ := exec ((tilePieces w.avx2 (r1-r0) batch tmp).map (puts (multiplied cols batch wRow tmp))) m₁ with multiplied'
  have fill : ∀ c,m₁ c = if c ∈ (fillPieces trans cols (r1-r0) wRow).flatten then dequantised w cols trans r0 wRow c m else m c := by
    refine exec_puts (Set.range Cell.row) (fun cells listed c member => ?_) (fun c m m' _ => by cases c <;> rfl) m
    obtain ⟨r,_,ci,_,rfl⟩ := mem_fillPieces.mp (List.mem_flatten.mpr ⟨cells,listed,member⟩)
    exact ⟨_,rfl⟩
  have tile : ∀ c,m₂ c = if c ∈ (tilePieces w.avx2 (r1-r0) batch tmp).flatten then multiplied cols batch wRow tmp c m₁ else m₁ c := by
    refine exec_puts (Set.range Cell.tmp) (fun cells listed c member => ?_) (fun c m m' same => ?_) m₁
    · obtain ⟨r,_,b,_,rfl⟩ := mem_tilePieces.mp (List.mem_flatten.mpr ⟨cells,listed,member⟩)
      exact ⟨_,rfl⟩
    · cases c with
      | tmp p =>
        unfold multiplied product
        refine Finset.sum_congr rfl fun t _ => ?_
        rw [slice,slice,slice,slice,same (.row _) (by simp),same (.xT _) (by simp)]
      | _ => rfl
  have copy : ∀ c,exec ((copyPieces batch rows r0 (r1-r0)).map (puts (copied batch rows r0 tmp))) m₂ c =
      if c ∈ (copyPieces batch rows r0 (r1-r0)).flatten then copied batch rows r0 tmp c m₂ else m₂ c := by
    refine exec_puts (Set.range Cell.y) (fun cells listed c member => ?_) (fun c m m' same => ?_) m₂
    · obtain ⟨r,_,b,_,rfl⟩ := mem_copyPieces.mp (List.mem_flatten.mpr ⟨cells,listed,member⟩)
      exact ⟨_,rfl⟩
    · cases c with
      | y p => exact same _ (by simp)
      | _ => rfl
  have kept₁ : ∀ c,c ∉ Set.range Cell.row → m₁ c = m c := fun c other => by
    rw [fill,if_neg fun listed => other (by obtain ⟨_,_,_,_,rfl⟩ := mem_fillPieces.mp listed; exact ⟨_,rfl⟩)]
  have kept₂ : ∀ c,c ∉ Set.range Cell.tmp → m₂ c = m₁ c := fun c other => by
    rw [tile,if_neg fun listed => other (by obtain ⟨_,_,_,_,rfl⟩ := mem_tilePieces.mp listed; exact ⟨_,rfl⟩)]
  refine ⟨fun o low high b small => ?_,fun p outside => ?_,fun p => ?_⟩
  · obtain ⟨r,rfl⟩ := Nat.exists_eq_add_of_le low
    have below : r < r1-r0 := by omega
    have column : r0+r < rows := by omega
    rw [copy,if_pos (mem_copyPieces.mpr ⟨r,below,b,small,rfl⟩)]
    simp only [copied,place_row column,Nat.mul_add_mod_of_lt column,Nat.add_sub_cancel_left]
    rw [tile,if_pos (mem_tilePieces.mpr ⟨r,below,b,small,rfl⟩)]
    simp only [multiplied,Nat.add_sub_cancel_left,place_row small,Nat.mul_add_mod_of_lt small,product,slice,Nat.zero_add]
    refine Finset.sum_congr rfl fun t listed => ?_
    have narrow := Finset.mem_range.mp listed
    rw [kept₁ (.xT _) (by simp),← Nat.add_assoc,fill,if_pos (mem_fillPieces.mpr ⟨r,below,t,narrow,rfl⟩)]
    have place : wRow+r*cols+t-wRow = r*cols+t := by omega
    simp only [dequantised,place,place_row narrow,Nat.mul_add_mod_of_lt narrow]
  · have foreign : Cell.y p ∉ (copyPieces batch rows r0 (r1-r0)).flatten := by
      intro listed
      obtain ⟨r,below,b,_,same⟩ := mem_copyPieces.mp listed
      injection same with same
      have column : r0+r < rows := by omega
      refine outside ?_
      rw [same,Nat.mul_add_mod_of_lt column]
      omega
    rw [copy,if_neg foreign,kept₂ _ (by simp),kept₁ _ (by simp)]
  · have foreign : Cell.xT p ∉ (copyPieces batch rows r0 (r1-r0)).flatten := by
      intro listed
      obtain ⟨_,_,_,_,same⟩ := mem_copyPieces.mp listed
      cases same
    rw [copy,if_neg foreign,kept₂ _ (by simp),kept₁ _ (by simp)]

end Steps

section Workers
variable {w : Weight K} {rows cols batch : Nat} {trans : Bool}

def chunkEnd (rows idx : Nat) : Nat := if idx*matmatChunk+matmatChunk > rows then rows else idx*matmatChunk+matmatChunk

def workerSteps (w : Weight K) (rows cols batch : Nat) (trans : Bool) (tid idx : Nat) : List (Work K) :=
  (fillPieces trans cols (chunkEnd rows idx-idx*matmatChunk) (tid*matmatChunk*cols)).map
      (puts (dequantised w cols trans (idx*matmatChunk) (tid*matmatChunk*cols)))++
    (tilePieces w.avx2 (chunkEnd rows idx-idx*matmatChunk) batch (tid*matmatChunk*batch)).map
      (puts (multiplied cols batch (tid*matmatChunk*cols) (tid*matmatChunk*batch)))++
    (copyPieces batch rows (idx*matmatChunk) (chunkEnd rows idx-idx*matmatChunk)).map
      (puts (copied batch rows (idx*matmatChunk) (tid*matmatChunk*batch)))

theorem chunkEnd_range {idx : Nat} (start : idx*matmatChunk < rows) : idx*matmatChunk < chunkEnd rows idx ∧ chunkEnd rows idx ≤ rows ∧
    chunkEnd rows idx-idx*matmatChunk ≤ matmatChunk := by
  unfold chunkEnd
  have size : matmatChunk = 16 := rfl
  split <;> omega

theorem chunk_of {idx o : Nat} (row : o < rows) : o/matmatChunk = idx ↔ idx*matmatChunk ≤ o ∧ o < chunkEnd rows idx := by
  have division := Nat.div_add_mod o matmatChunk
  have remainder := Nat.mod_lt o (show 0 < matmatChunk by decide)
  have size : matmatChunk = 16 := rfl
  rw [size] at division remainder ⊢
  unfold chunkEnd
  rw [size]
  constructor
  · rintro rfl
    split <;> omega
  · split <;> omega

theorem matmatWorker_eq (stored : Stored w rows cols trans) (wide : 0 < cols) (some' : 0 < batch) (tid : Nat) {idx : Nat}
    (start : idx*matmatChunk < rows) :
    matmatWorker w batch rows cols trans tid idx = some (workerSteps w rows cols batch trans tid idx) := by
  obtain ⟨later,inside,_⟩ := chunkEnd_range start
  exact chunkSteps_eq stored wide some' later inside

def ownCells (rows cols batch tid : Nat) (claims : List Nat) : Set Cell := fun c =>
  match c with
  | .y p => p%rows/matmatChunk ∈ claims
  | .xT _ => False
  | .row p => p/(matmatChunk*cols) = tid
  | .tmp p => p/(matmatChunk*batch) = tid

def inputCells : Set Cell := Set.range Cell.xT

theorem ownCells_apart {tid tid' : Nat} {claims claims' : List Nat} (other : tid ≠ tid') (apart : List.Disjoint claims claims') :
    Disjoint (ownCells rows cols batch tid claims) (ownCells rows cols batch tid' claims' ∪ inputCells) := by
  refine Set.disjoint_left.mpr fun c mine theirs => ?_
  cases c with
  | y p =>
    rcases theirs with listed | ⟨_,same⟩
    · exact apart mine listed
    · cases same
  | xT p => exact mine
  | row p =>
    rcases theirs with place | ⟨_,same⟩
    · exact other (mine.symm.trans place)
    · cases same
  | tmp p =>
    rcases theirs with place | ⟨_,same⟩
    · exact other (mine.symm.trans place)
    · cases same

theorem scratch_place {width tid r j : Nat} (below : r < matmatChunk) (small : j < width) :
    (tid*matmatChunk*width+(r*width+j))/(matmatChunk*width) = tid := by
  rw [Nat.mul_assoc]
  exact place_row (row_below below small)

theorem workerSteps_confined {tid idx : Nat} {claims : List Nat} (claimed : idx ∈ claims) (start : idx*matmatChunk < rows) :
    ∀ step ∈ workerSteps w rows cols batch trans tid idx,
      Confined (ownCells rows cols batch tid claims) inputCells step := by
  obtain ⟨_,inside,few⟩ := chunkEnd_range start
  intro step listed
  rcases List.mem_append.mp listed with front | copy
  · rcases List.mem_append.mp front with fill | tile
    · obtain ⟨cells,piece,rfl⟩ := List.mem_map.mp fill
      refine puts_confined (fun c member => ?_) fun c _ m m' _ => by cases c <;> rfl
      obtain ⟨r,below,ci,small,rfl⟩ := mem_fillPieces.mp (List.mem_flatten.mpr ⟨cells,piece,member⟩)
      rw [Nat.add_assoc]
      exact scratch_place (by omega) small
    · obtain ⟨cells,piece,rfl⟩ := List.mem_map.mp tile
      refine puts_confined (fun c member => ?_) fun c member m m' same => ?_
      · obtain ⟨r,below,b,small,rfl⟩ := mem_tilePieces.mp (List.mem_flatten.mpr ⟨cells,piece,member⟩)
        exact scratch_place (by omega) small
      · obtain ⟨r,below,b,small,rfl⟩ := mem_tilePieces.mp (List.mem_flatten.mpr ⟨cells,piece,member⟩)
        unfold multiplied product
        refine Finset.sum_congr rfl fun t listed => ?_
        rw [Nat.add_sub_cancel_left,place_row small]
        have narrow := Finset.mem_range.mp listed
        have row : Cell.row (tid*matmatChunk*cols+(r*cols+t)) ∈ ownCells rows cols batch tid claims := scratch_place (by omega) narrow
        rw [slice,slice,slice,slice,same _ (Or.inl row),same (.xT _) (Or.inr ⟨_,rfl⟩)]
  · obtain ⟨cells,piece,rfl⟩ := List.mem_map.mp copy
    refine puts_confined (fun c member => ?_) fun c member m m' same => ?_
    · obtain ⟨r,below,b,_,rfl⟩ := mem_copyPieces.mp (List.mem_flatten.mpr ⟨cells,piece,member⟩)
      have row : idx*matmatChunk+r < rows := by omega
      change (b*rows+(idx*matmatChunk+r))%rows/matmatChunk ∈ claims
      have here : (idx*matmatChunk+r)/matmatChunk = idx := (chunk_of row).mpr (by omega)
      rw [Nat.mul_add_mod_of_lt row,here]
      exact claimed
    · obtain ⟨r,below,b,small,rfl⟩ := mem_copyPieces.mp (List.mem_flatten.mpr ⟨cells,piece,member⟩)
      have row : idx*matmatChunk+r < rows := by omega
      simp only [copied,Nat.mul_add_mod_of_lt row,place_row row,Nat.add_sub_cancel_left]
      exact same _ (Or.inl (scratch_place (by omega) small))

-- What a thread leaves of the chunks it has run.
structure ChunksRan (w : Weight K) (rows cols batch : Nat) (trans : Bool) (claims : List Nat) (m m' : Cell → K) : Prop where
  products : ∀ o < rows,o/matmatChunk ∈ claims → ∀ b < batch,
    m' (.y (b*rows+o)) = ∑ t ∈ Finset.range cols,w.entry cols trans o t*m (.xT (t*batch+b))
  others : ∀ p,p%rows/matmatChunk ∉ claims → m' (.y p) = m (.y p)
  input : ∀ p,m' (.xT p) = m (.xT p)

theorem chunks_ran (w : Weight K) (rows cols batch : Nat) (trans : Bool) (tid : Nat) {claims : List Nat}
    (each : ∀ idx ∈ claims,idx*matmatChunk < rows) (once : claims.Nodup) (m : Cell → K) :
    ChunksRan w rows cols batch trans claims m (exec (claims.flatMap (workerSteps w rows cols batch trans tid)) m) := by
  induction claims generalizing m with
  | nil => exact ⟨fun _ _ listed => (by cases listed),fun _ _ => rfl,fun _ => rfl⟩
  | cons idx rest ih =>
    have start := each idx List.mem_cons_self
    obtain ⟨fresh,once'⟩ := List.nodup_cons.mp once
    obtain ⟨_,inside,_⟩ := chunkEnd_range start
    have head : Ran w rows cols batch trans (idx*matmatChunk) (chunkEnd rows idx) m (exec (workerSteps w rows cols batch trans tid idx) m) :=
      chunk_ran inside m
    have tail := ih (fun i listed => each i (List.mem_cons_of_mem _ listed)) once' (exec (workerSteps w rows cols batch trans tid idx) m)
    rw [List.flatMap_cons,exec_append]
    refine ⟨fun o row listed b small => ?_,fun p outside => ?_,fun p => (tail.input p).trans (head.input p)⟩
    · rcases List.mem_cons.mp listed with here | later
      · obtain ⟨low,high⟩ := (chunk_of row).mp here
        have kept : (b*rows+o)%rows/matmatChunk ∉ rest := by
          rw [Nat.mul_add_mod_of_lt row,here]
          exact fresh
        rw [tail.others _ kept]
        exact head.products o low high b small
      · rw [tail.products o row later b small]
        exact Finset.sum_congr rfl fun t _ => by rw [head.input]
    · rw [List.mem_cons,not_or] at outside
      rw [tail.others p outside.2]
      have column : p%rows < rows := Nat.mod_lt p (by omega)
      exact head.others p fun range => outside.1 ((chunk_of column).mpr range)

end Workers

section Routines
variable {w : Weight K} {x : Nat → K} {rows cols batch : Nat} {trans : Bool} {m : Cell → K}

omit [Field K] in
theorem transposed_at (x : Nat → K) (cols batch : Nat) (m : Cell → K) :
    (∀ c < cols,∀ b < batch,transposed x batch cols m (.xT (c*batch+b)) = x (b*cols+c)) ∧
    ∀ p,transposed x batch cols m (.y p) = m (.y p) := by
  set places := (List.range cols).flatMap fun c => (List.range batch).map fun b => (c,b) with listed
  set f : Cell → (Cell → K) → K := fun c _ =>
    match c with
    | .xT p => x (p%batch*cols+p/batch)
    | c => m c with values
  have whole : transposed x batch cols m = puts f (places.map fun q => Cell.xT (q.1*batch+q.2)) m := by
    rw [← stores_puts (fun q : Nat × Nat => Cell.xT (q.1*batch+q.2)) (fun q _ => x (q.2*cols+q.1)) (fun q place _ => ?_) m]
    · simp only [listed,List.foldl_flatMap,List.foldl_map]
      rfl
    · obtain ⟨c,_,inner⟩ := List.mem_flatMap.mp place
      obtain ⟨b,below,rfl⟩ := List.mem_map.mp inner
      have small := List.mem_range.mp below
      simp only [values,place_row small,Nat.mul_add_mod_of_lt small]
  refine ⟨fun c column b small => ?_,fun p => ?_⟩
  · have place : Cell.xT (c*batch+b) ∈ places.map fun q => Cell.xT (q.1*batch+q.2) := by
      refine List.mem_map.mpr ⟨(c,b),List.mem_flatMap.mpr ⟨c,List.mem_range.mpr column,?_⟩,rfl⟩
      exact List.mem_map.mpr ⟨b,List.mem_range.mpr small,rfl⟩
    rw [whole,puts,if_pos place]
    simp only [values,place_row small,Nat.mul_add_mod_of_lt small]
  · rw [whole,puts,if_neg (by simp)]

omit [Field K] in
theorem foldlM_exec {work : Nat → Option (List (Work K))} {steps : Nat → List (Work K)} {l : List Nat}
    (all : ∀ i ∈ l,work i = some (steps i)) (m : Cell → K) :
    l.foldlM (fun m i => (work i).map fun steps => exec steps m) m = some (exec (l.flatMap steps) m) := by
  induction l generalizing m with
  | nil => rfl
  | cons i rest ih =>
    rw [List.foldlM_cons,all i List.mem_cons_self,List.flatMap_cons,exec_append]
    exact ih (fun i listed => all i (List.mem_cons_of_mem _ listed)) _

omit [Field K] in
theorem parallelFor_dispatch (pool : Pool Cell K) {n : Nat} {work : Nat → Nat → Option (List (Work K))}
    {steps : Nat → Nat → List (Work K)} (some' : 0 < n) (fits : n < 2^31) (all : ∀ tid,∀ i < n,work tid i = some (steps tid i))
    (m : Cell → K) : ∃ claims order,Dispatch pool.nthreads n (fun tid i => (work tid i).getD []) claims order ∧
      parallelFor pool (Pthreads.int n) work m = some (exec (order.map Prod.snd) m) := by
  have exact' : Pthreads.int n = n := Pthreads.int_exact (by unfold Pthreads.intMin; omega) (by unfold Pthreads.intMax; omega)
  obtain ⟨claims,order,dispatch,run⟩ := pool.once n (fun tid i => (work tid i).getD []) m
  refine ⟨claims,order,dispatch,?_⟩
  unfold parallelFor
  rw [exact',if_neg (by omega),Int.toNat_natCast,if_pos fun tid _ i below => by rw [all tid i below]; rfl,run]

theorem chunk_count {idx : Nat} : idx < (rows+matmatChunk-1)/matmatChunk ↔ idx*matmatChunk < rows := by
  have size : matmatChunk = 16 := rfl
  rw [size,Nat.lt_div_iff_mul_lt (by decide)]
  omega

theorem matMatMul_product (stored : Stored w rows cols trans) (tall : 0 < rows) (wide : 0 < cols) (some' : 0 < batch)
    (fits : rows < 2^32) (pool : Option (Pool Cell K)) (m : Cell → K) :
    ∃ m',matMatMul w x batch rows cols trans pool m = some (true,m') ∧
      ∀ b < batch,∀ o < rows,m' (.y (b*rows+o)) = ∑ t ∈ Finset.range cols,w.entry cols trans o t*x (b*cols+t) := by
  have steps : ∀ tid,∀ idx < (rows+matmatChunk-1)/matmatChunk,
      matmatWorker w batch rows cols trans tid idx = some (workerSteps w rows cols batch trans tid idx) :=
    fun tid idx below => matmatWorker_eq stored wide some' tid (chunk_count.mp below)
  have input := (transposed_at x cols batch m).1
  have last : ∀ o < rows,o/matmatChunk < (rows+matmatChunk-1)/matmatChunk := fun o row =>
    chunk_count.mpr (lt_of_le_of_lt (Nat.div_mul_le_self o matmatChunk) row)
  unfold matMatMul
  rw [stored.accepts,Bool.not_true,if_neg Bool.false_ne_true,if_neg (by omega)]
  dsimp only
  cases threaded pool ((rows+matmatChunk-1)/matmatChunk) with
  | none =>
    dsimp only
    rw [foldlM_exec fun idx listed => steps 0 idx (List.mem_range.mp listed)]
    refine ⟨_,rfl,fun b small o row => ?_⟩
    have ran := chunks_ran w rows cols batch trans 0
      (fun idx listed => chunk_count.mp (List.mem_range.mp listed)) List.nodup_range (transposed x batch cols m)
    rw [ran.products o row (List.mem_range.mpr (last o row)) b small]
    exact Finset.sum_congr rfl fun t narrow => by rw [input t (Finset.mem_range.mp narrow) b small]
  | some p =>
    dsimp only
    have several : 0 < (rows+matmatChunk-1)/matmatChunk := lt_of_le_of_lt (Nat.zero_le _) (last 0 tall)
    have few : (rows+matmatChunk-1)/matmatChunk < 2^31 := by
      rw [show matmatChunk = 16 from rfl]
      omega
    obtain ⟨claims,order,dispatch,run⟩ := parallelFor_dispatch p several few steps (transposed x batch cols m)
    obtain ⟨each,apart⟩ := dispatch.nodup
    rw [run]
    refine ⟨_,rfl,fun b small o row => ?_⟩
    obtain ⟨tid,thread,claimed⟩ := dispatch.claimed (last o row)
    have owned : Cell.y (b*rows+o) ∈ ownCells rows cols batch tid (claims tid) := by
      change (b*rows+o)%rows/matmatChunk ∈ claims tid
      rwa [Nat.mul_add_mod_of_lt row]
    have alone := dispatch.alone (fun tid => ownCells rows cols batch tid (claims tid)) inputCells
      (fun t below t' below' other => ownCells_apart other (apart t below t' below' other))
      (fun t below i listed step member => by
        have start := dispatch.below below listed
        rw [steps t i start] at member
        exact workerSteps_confined listed (chunk_count.mp start) step member)
      thread (transposed x batch cols m) (Or.inl owned)
    have same : (claims tid).flatMap (fun i => (matmatWorker w batch rows cols trans tid i).getD []) =
        (claims tid).flatMap (workerSteps w rows cols batch trans tid) :=
      List.flatMap_congr fun i listed => by rw [steps tid i (dispatch.below thread listed)]; rfl
    have ran := chunks_ran w rows cols batch trans tid
      (fun i listed => chunk_count.mp (dispatch.below thread listed)) (each tid thread) (transposed x batch cols m)
    rw [alone,same,ran.products o row claimed b small]
    exact Finset.sum_congr rfl fun t narrow => by rw [input t (Finset.mem_range.mp narrow) b small]

theorem foldlM_some {α β : Type} {f : β → α → Option β} {g : β → α → β} {l : List α} (all : ∀ a ∈ l,∀ b,f b a = some (g b a)) (b : β) :
    l.foldlM f b = some (l.foldl g b) := by
  induction l generalizing b with
  | nil => rfl
  | cons a rest ih =>
    rw [List.foldlM_cons,all a List.mem_cons_self]
    exact ih (fun a listed => all a (List.mem_cons_of_mem _ listed)) _

theorem rows_stored {v : Nat → K} {l : List Nat} {o : Nat} (listed : o ∈ l) (m : Cell → K) :
    l.foldl (fun m r => Function.update m (.y r) (v r)) m (.y o) = v o := by
  have closed := stores_puts (f:=fun c _ => match c with | .y p => v p | _ => 0) Cell.y (fun r _ => v r) (l:=l) (fun _ _ _ => rfl) m
  rw [closed]
  exact if_pos (List.mem_map.mpr ⟨o,listed,rfl⟩)

theorem matVecTrans_product (stored : Stored w rows cols true) (m : Cell → K) :
    ∃ m',matVecTrans w x rows cols m = some m' ∧ ∀ o < rows,m' (.y o) = ∑ t ∈ Finset.range cols,w.entry cols true o t*x t := by
  have row : ∀ r ∈ List.range rows,∀ m : Cell → K,(do
      let wRow ← (List.range cols).mapM fun c => tensorGetF32 w.source w.tensor (c*w.tc+r)
      let sum := cols.fold (fun c _ sum => sum+wRow.getD c 0*x c) 0
      some (Function.update m (.y r) sum)) =
      some (Function.update m (.y r) (∑ t ∈ Finset.range cols,w.entry cols true r t*x t)) := by
    intro r listed m
    have gathered : ((List.range cols).mapM fun c => tensorGetF32 w.source w.tensor (c*w.tc+r)) =
        some ((List.range cols).map (w.entry cols true r)) := mapM_some fun c small => by
      have inside := stored.inside (List.mem_range.mp listed) (List.mem_range.mp small)
      rw [if_pos rfl] at inside
      exact if_neg (not_le.mpr inside)
    rw [gathered]
    refine congrArg (fun sum => some (Function.update m (.y r) sum)) ?_
    have total := fold_total (n:=cols) (m:=fun sum : K => sum) (d:=fun c => ((List.range cols).map (w.entry cols true r)).getD c 0*x c)
      (b:=fun c sum => sum+((List.range cols).map (w.entry cols true r)).getD c 0*x c) (fun _ _ _ => rfl) 0
    refine (total.trans (zero_add _)).trans (Finset.sum_congr rfl fun c small => ?_)
    have narrow := Finset.mem_range.mp small
    simp [List.getD_eq_getElem?_getD,narrow]
  exact ⟨_,foldlM_some row m,fun o below => rows_stored (v:=fun r => ∑ t ∈ Finset.range cols,w.entry cols true r t*x t)
    (List.mem_range.mpr below) m⟩

theorem ggufDotRow_product (w : Weight K) (cols o : Nat) (x : Nat → K) :
    ggufDotRow w (o*cols) cols x = ∑ t ∈ Finset.range cols,w.entry cols false o t*x t :=
  ggufDotBatch_sum w.avx2 w.stale w.source w.tensor.type (o*cols) cols x

theorem matvec_dispatch (w : Weight K) (x : Nat → K) (cols : Nat) (pool : Pool Cell K) (some' : 0 < rows) (fits : rows < 2^31) (m : Cell → K) :
    ∃ m',parallelFor pool (Pthreads.int rows) (matvecWorker w x cols) m = some m' ∧
      ∀ o < rows,m' (.y o) = ggufDotRow w (o*cols) cols x := by
  set dot : Cell → (Cell → K) → K := fun c _ =>
    match c with
    | .y p => ggufDotRow w (p*cols) cols x
    | _ => 0 with values
  have step : ∀ i,(fun m : Cell → K => Function.update m (.y i) (ggufDotRow w (i*cols) cols x)) = puts dot [.y i] :=
    fun i => update_puts fun _ => rfl
  have steps : ∀ tid : Nat,∀ i < rows,matvecWorker w x cols tid i = some [puts dot [.y i]] := fun _ i _ => by rw [← step]; rfl
  obtain ⟨claims,order,dispatch,run⟩ := parallelFor_dispatch pool some' fits steps m
  obtain ⟨_,apart⟩ := dispatch.nodup
  have work : ∀ tid i,(matvecWorker w x cols tid i).getD [] = [puts dot [.y i]] := fun tid i => by rw [← step]; rfl
  simp only [work] at dispatch
  refine ⟨_,run,fun o below => ?_⟩
  obtain ⟨tid,thread,claimed⟩ := dispatch.claimed below
  have alone := dispatch.alone (fun tid => {c | ∃ i ∈ claims tid,c = .y i}) ∅
    (fun t inside t' inside' other => Set.disjoint_left.mpr fun c mine theirs => by
      obtain ⟨i,listed,rfl⟩ := mine
      rcases theirs with ⟨i',listed',same⟩ | none'
      · cases same
        exact apart t inside t' inside' other listed listed'
      · exact none')
    (fun t inside i listed step member => by
      rw [List.mem_singleton.mp member]
      refine puts_confined (fun c single => ?_) fun c _ m m' _ => rfl
      exact ⟨i,listed,List.mem_singleton.mp single⟩)
    thread m (Or.inl ⟨o,claimed,rfl⟩)
  have pieces : (claims tid).flatMap (fun i => [puts dot [.y i]]) = ((claims tid).map fun i => [Cell.y i]).map (puts dot) := by
    rw [List.map_map,List.map_eq_flatMap]
    rfl
  rw [alone,pieces,exec_puts Set.univ (fun _ _ _ _ => trivial) (fun _ _ _ _ => rfl)]
  exact if_pos (List.mem_flatten.mpr ⟨[Cell.y o],List.mem_map.mpr ⟨o,claimed,rfl⟩,List.mem_singleton_self _⟩)

theorem matVecMul_product (stored : Stored w rows cols trans) (tall : 0 < rows) {pool : Option (Pool Cell K)}
    (counted : trans = true ∨ (∀ p ∈ pool,p.nthreads ≤ 1) ∨ rows < 2^31) (m : Cell → K) :
    ∃ m',matVecMul w x rows cols trans pool m = some (true,m') ∧
      ∀ o < rows,m' (.y o) = ∑ t ∈ Finset.range cols,w.entry cols trans o t*x t := by
  unfold matVecMul
  rw [stored.accepts,Bool.not_true,if_neg Bool.false_ne_true]
  cases trans with
  | true =>
    obtain ⟨m',run,products⟩ := matVecTrans_product stored m
    rw [if_pos rfl,run]
    exact ⟨m',rfl,products⟩
  | false =>
    rw [if_neg Bool.false_ne_true]
    cases split : threaded pool rows with
    | none =>
      refine ⟨_,rfl,fun o below => ?_⟩
      rw [rows_stored (v:=fun r => ggufDotRow w (r*cols) cols x) (List.mem_range.mpr below)]
      exact ggufDotRow_product w cols o x
    | some p =>
      obtain ⟨there,several⟩ := Option.filter_eq_some_iff.mp split
      have few : rows < 2^31 := by
        rcases counted with other | single | few
        · cases other
        · have := single p there
          have := (of_decide_eq_true several).1
          omega
        · exact few
      obtain ⟨m',run,products⟩ := matvec_dispatch w x cols p tall few m
      dsimp only
      rw [run]
      exact ⟨m',rfl,fun o below => (products o below).trans (ggufDotRow_product w cols o x)⟩

end Routines

section Claim

def outputs (t : TensorInfo) (trans : Bool) : Nat := t.dim.getD (if trans then 1 else 0) 0
def inputs (t : TensorInfo) (trans : Bool) : Nat := t.dim.getD (if trans then 0 else 1) 0

-- Element (o, j) of W, or of its transpose.
def element (s : Source K) (t : TensorInfo) (trans : Bool) (o j : Nat) : K :=
  value (ggufDequant t.type (if trans then j*t.dim.getD 1 0+o else o*t.dim.getD 1 0+j)) s

def chunkRows (rows idx : Nat) : List Nat := (List.range (chunkEnd rows idx-idx*matmatChunk)).map fun r => idx*matmatChunk+r

structure MatmulExact (avx2 : Bool) (t : TensorInfo) (trans : Bool) (base r : Nat) (pool : Option (Pool Cell K)) : Prop where
  products : ∀ (stale : Nat → Nat) (s : Source K) (src : Nat → K) (m : Cell → K),
    ∃ m',opMatmul ⟨avx2,stale,s,t⟩ trans src base r pool m = some (true,m') ∧ ∀ b < r,∀ o < outputs t trans,
      m' (.y (b*outputs t trans+o)) = ∑ j ∈ Finset.range (inputs t trans),element s t trans o j*src ((base+b)*inputs t trans+j)
  chunks : (List.range ((outputs t trans+matmatChunk-1)/matmatChunk)).flatMap (chunkRows (outputs t trans)) = List.range (outputs t trans)
  tiles : ∀ (m k n : Nat) (A B : Nat → K),0 < m → 0 < k → 0 < n →
    ((mulMatMat avx2 m k n).flatMap fun tile => (tile A B).map Prod.fst).Perm (List.range (m*n)) ∧
      ∀ tile ∈ mulMatMat avx2 m k n,∀ store ∈ tile A B,store.2 = product k n A B (store.1/n) (store.1%n)

omit [Field K] in
theorem chunkRows_cover (rows : Nat) : (List.range ((rows+matmatChunk-1)/matmatChunk)).flatMap (chunkRows rows) = List.range rows := by
  have covers : rows ≤ (rows+matmatChunk-1)/matmatChunk*matmatChunk := by
    rw [show matmatChunk = 16 from rfl]
    omega
  rw [← Grid.gridOnce_eq covers]
  refine List.flatMap_congr fun idx listed => ?_
  obtain ⟨_,_,few⟩ := chunkEnd_range (chunk_count.mp (List.mem_range.mp listed))
  rw [chunkRows,← Grid.filter_range few,List.filter_map]
  refine congrArg _ (List.filter_congr fun r small => decide_eq_decide.mpr ?_)
  have within := List.mem_range.mp small
  unfold chunkEnd
  rw [show matmatChunk = 16 from rfl] at *
  dsimp only
  split <;> omega

theorem mulMatMat_once (avx2 : Bool) {m k n : Nat} (A B : Nat → K) (tall : 0 < m) (deep : 0 < k) (wide : 0 < n) :
    ((mulMatMat avx2 m k n).flatMap fun tile => (tile A B).map Prod.fst).Perm (List.range (m*n)) := by
  have places : ((mulMatMat avx2 m k n).flatMap fun tile => (tile A B).map Prod.fst) =
      (kernelCells avx2 m n).flatten.map fun q => q.1*n+q.2 := by
    rw [mulMatMat_stores avx2 tall deep wide,List.flatMap_map,List.map_flatten,List.flatMap_def]
    simp only [stores,List.map_map]
    rfl
  rw [places,← Grid.range_tiles]
  refine ((kernelCells_perm avx2 m n).map _).trans (List.Perm.of_eq ?_)
  simp only [rowCells,List.map_flatMap,List.map_map]
  rfl

theorem mulMatMat_product (avx2 : Bool) {m k n : Nat} (A B : Nat → K) (tall : 0 < m) (deep : 0 < k) (wide : 0 < n) :
    ∀ tile ∈ mulMatMat avx2 m k n,∀ store ∈ tile A B,store.2 = product k n A B (store.1/n) (store.1%n) := by
  intro tile listed store member
  rw [mulMatMat_stores avx2 tall deep wide] at listed
  obtain ⟨cells,piece,rfl⟩ := List.mem_map.mp listed
  obtain ⟨q,place,rfl⟩ := List.mem_map.mp member
  have inside := (kernelCells_perm avx2 m n).mem_iff.mp (List.mem_flatten.mpr ⟨cells,piece,place⟩)
  obtain ⟨i,_,column⟩ := List.mem_flatMap.mp inside
  obtain ⟨j,below,rfl⟩ := List.mem_map.mp column
  have small := List.mem_range.mp below
  simp only [place_row small,Nat.mul_add_mod_of_lt small]

section Exact
variable {avx2 : Bool} {t : TensorInfo} {trans : Bool} {base r : Nat} {pool : Option (Pool Cell K)} {rows cols : Nat}

omit [Field K] in
theorem accepts_iff (w : Weight K) (trans : Bool) (ndim : w.tensor.ndim = 2) :
    w.accepts (u32 (outputs w.tensor trans)) (u32 (inputs w.tensor trans)) trans = true ↔
      outputs w.tensor trans < 2^32 ∧ inputs w.tensor trans < 2^32 := by
  have word : ∀ n,n = u32 n ↔ n < 2^32 := fun n => ⟨fun same => same ▸ u32_lt n,fun small => (u32_of_lt small).symm⟩
  have two : decide (w.tensor.ndim ≥ 2) = true := decide_eq_true (by omega)
  unfold Weight.accepts Weight.tr Weight.tc
  rw [two,ndim]
  cases trans with
  | true => simp [outputs,inputs,word,and_comm]
  | false => simp [outputs,inputs,word]

theorem opMatmul_eq (w : Weight K) (src : Nat → K) (m : Cell → K) : opMatmul w trans src base r pool m =
    if r = 1 then matVecMul w (fun p => src (base*u32 (inputs w.tensor trans)+p)) (u32 (outputs w.tensor trans))
      (u32 (inputs w.tensor trans)) trans pool m
    else matMatMul w (fun p => src (base*u32 (inputs w.tensor trans)+p)) r (u32 (outputs w.tensor trans))
      (u32 (inputs w.tensor trans)) trans pool m := rfl

-- The count of rows that goes through an int.
def CountFits (t : TensorInfo) (trans : Bool) (r : Nat) (pool : Option (Pool Cell K)) : Prop :=
  r ≠ 1 ∨ trans = true ∨ (∀ p ∈ pool,p.nthreads ≤ 1) ∨ outputs t trans < 2^31

theorem opMatmul_products (avx2 : Bool) (base : Nat) (ndim : t.ndim = 2) (elements : t.nElement = outputs t trans*inputs t trans) (batch : 0 < r)
    (tall : 0 < outputs t trans) (wide : 0 < inputs t trans) (small : outputs t trans < 2^32 ∧ inputs t trans < 2^32)
    (counted : CountFits t trans r pool) (stale : Nat → Nat) (s : Source K) (src : Nat → K) (m : Cell → K) :
    ∃ m',opMatmul ⟨avx2,stale,s,t⟩ trans src base r pool m = some (true,m') ∧ ∀ b < r,∀ o < outputs t trans,
      m' (.y (b*outputs t trans+o)) = ∑ j ∈ Finset.range (inputs t trans),element s t trans o j*src ((base+b)*inputs t trans+j) := by
  have accepts := (accepts_iff (⟨avx2,stale,s,t⟩ : Weight K) trans ndim).mpr small
  have stored : Stored (⟨avx2,stale,s,t⟩ : Weight K) (outputs t trans) (inputs t trans) trans := by
    refine ⟨?_,elements⟩
    rwa [u32_of_lt small.1,u32_of_lt small.2] at accepts
  have entry : ∀ o j,Weight.entry (⟨avx2,stale,s,t⟩ : Weight K) (inputs t trans) trans o j = element s t trans o j := by
    intro o j
    unfold Weight.entry element Weight.tc
    rw [ndim]
    cases trans <;> rfl
  have row : ∀ b j,base*inputs t trans+(b*inputs t trans+j) = (base+b)*inputs t trans+j := fun b j => by ring
  rw [opMatmul_eq,u32_of_lt small.1,u32_of_lt small.2]
  by_cases one : r = 1
  · obtain ⟨m',done,products⟩ := matVecMul_product (x:=fun p => src (base*inputs t trans+p)) stored tall
      (counted.resolve_left fun other => other one) m
    rw [if_pos one,done]
    refine ⟨m',rfl,fun b inside o below => ?_⟩
    obtain rfl : b = 0 := by omega
    rw [Nat.zero_mul,Nat.zero_add,products o below]
    exact Finset.sum_congr rfl fun j _ => by rw [entry,Nat.add_zero]
  · obtain ⟨m',done,products⟩ := matMatMul_product (x:=fun p => src (base*inputs t trans+p)) stored tall wide batch small.1 pool m
    rw [if_neg one,done]
    refine ⟨m',rfl,fun b inside o below => ?_⟩
    rw [products b inside o below]
    exact Finset.sum_congr rfl fun j _ => by rw [entry,row]

theorem opMatmul_refines {out input : Nat} (rows : Graph.StoredRows t out input) (elements : t.nElement = out*input) (tall : 0 < out)
    (batch : 0 < r) (counted : CountFits t trans r pool) (stale : Nat → Nat) (s : Source K) (src old : Nat → K) (m : Cell → K) :
    ∃ m',opMatmul ⟨avx2,stale,s,t⟩ trans src base r pool m = some (true,m') ∧
      Graph.mulRows t trans (fun i => value (ggufDequant t.type i) s) src old base r =
        some ((List.range r).map fun b => (List.range (outputs t trans)).map fun o => m' (.y (b*outputs t trans+o))) := by
  have positive := rows.positive
  have outs : outputs t trans = if trans then input else out := by
    rw [outputs,rows.dim]
    cases trans <;> rfl
  have ins : inputs t trans = if trans then out else input := by
    rw [inputs,rows.dim]
    cases trans <;> rfl
  have size : t.nElement = outputs t trans*inputs t trans := by
    rw [elements,outs,ins]
    cases trans with
    | true => exact Nat.mul_comm out input
    | false => rfl
  have fits : outputs t trans < 2^32 ∧ inputs t trans < 2^32 := by
    rw [outs,ins]
    cases trans with
    | true => exact ⟨rows.inFits,rows.outFits⟩
    | false => exact ⟨rows.outFits,rows.inFits⟩
  have some' : 0 < outputs t trans ∧ 0 < inputs t trans := by
    rw [outs,ins]
    cases trans with
    | true => exact ⟨positive,tall⟩
    | false => exact ⟨tall,positive⟩
  obtain ⟨m',run,products⟩ := opMatmul_products avx2 base rows.ndim size batch some'.1 some'.2 fits counted stale s src m
  refine ⟨m',run,?_⟩
  rw [Graph.mulRows_eq rows trans _ src old base r batch (ins ▸ some'.2),← outs,← ins]
  refine congrArg some (List.map_congr_left fun b below => List.map_congr_left fun o small => ?_)
  rw [products b (List.mem_range.mp below) o (List.mem_range.mp small)]
  refine Finset.sum_congr rfl fun j _ => ?_
  rw [element,rows.dim]
  cases trans <;> rfl

-- A count that does not fit is negative, and no row is computed.
theorem opMatmul_skips (ndim : t.ndim = 2) (small : outputs t trans < 2^32 ∧ inputs t trans < 2^32)
    (wraps : ¬CountFits t trans r pool) (stale : Nat → Nat) (s : Source K) (src : Nat → K) (m : Cell → K) :
    opMatmul ⟨avx2,stale,s,t⟩ trans src base r pool m = some (true,m) := by
  have accepts := (accepts_iff (⟨avx2,stale,s,t⟩ : Weight K) trans ndim).mpr small
  unfold CountFits at wraps
  simp only [not_or,not_not,not_forall,not_le,not_lt] at wraps
  obtain ⟨rfl,plain,⟨p,there,several⟩,many⟩ := wraps
  have split : threaded pool (outputs t trans) = some p :=
    Option.filter_eq_some_iff.mpr ⟨there,decide_eq_true ⟨several,by omega⟩⟩
  have negative : Pthreads.int (outputs t trans) ≤ 0 := by
    rw [Pthreads.int,Int.bmod_def]
    split <;> omega
  rw [opMatmul_eq,if_pos rfl,matVecMul,accepts,Bool.not_true,if_neg Bool.false_ne_true,if_neg plain,
    u32_of_lt small.1,split]
  dsimp only
  rw [parallelFor,if_pos negative]
  rfl

theorem opMatmul_refuses (ndim : t.ndim = 2) (large : ¬(outputs t trans < 2^32 ∧ inputs t trans < 2^32)) (stale : Nat → Nat)
    (s : Source K) (src : Nat → K) (m : Cell → K) : opMatmul ⟨avx2,stale,s,t⟩ trans src base r pool m = some (false,m) := by
  have refused := mt (accepts_iff (⟨avx2,stale,s,t⟩ : Weight K) trans ndim).mp large
  rw [opMatmul_eq,matVecMul,matMatMul,Bool.eq_false_of_not_eq_true refused]
  split <;> rfl

theorem skipped_inexact (ndim : t.ndim = 2) (small : outputs t trans < 2^32 ∧ inputs t trans < 2^32) (batch : 0 < r)
    (tall : 0 < outputs t trans) (wraps : ¬CountFits t trans r pool) : ¬MatmulExact (K:=K) avx2 t trans base r pool := by
  intro exact'
  obtain ⟨m',run,values⟩ := exact'.products (fun _ => 0) ⟨fun _ => 0,fun _ => 0,fun _ => 0,fun _ => 0,fun _ _ => 0⟩ (fun _ => 0) fun _ => 1
  rw [opMatmul_skips ndim small wraps] at run
  cases run
  have row := values 0 batch 0 tall
  simp at row

theorem opMatmul_exact_iff (ndim : t.ndim = 2) (elements : t.nElement = outputs t trans*inputs t trans) (batch : 0 < r)
    (tall : 0 < outputs t trans) (wide : 0 < inputs t trans) : MatmulExact (K:=K) avx2 t trans base r pool ↔
      (outputs t trans < 2^32 ∧ inputs t trans < 2^32) ∧ CountFits t trans r pool := by
  constructor
  · intro exact'
    have small : outputs t trans < 2^32 ∧ inputs t trans < 2^32 := by
      by_contra large
      obtain ⟨m',run,_⟩ := exact'.products (fun _ => 0) ⟨fun _ => 0,fun _ => 0,fun _ => 0,fun _ => 0,fun _ _ => 0⟩ (fun _ => 0) fun _ => 0
      rw [opMatmul_refuses ndim large] at run
      cases run
    exact ⟨small,by_contra fun wraps => skipped_inexact ndim small batch tall wraps exact'⟩
  · rintro ⟨small,counted⟩
    exact ⟨opMatmul_products avx2 base ndim elements batch tall wide small counted,chunkRows_cover _,
      fun m k n A B tall deep wide => ⟨mulMatMat_once avx2 A B tall deep wide,mulMatMat_product avx2 A B tall deep wide⟩⟩

end Exact

end Claim

end Chunk

section Runs

def firstThread (κ α : Type) : Pool κ α where
  nthreads := 2
  run n work m := exec ((List.range n).flatMap (work 0)) m
  once n work m := by
    refine ⟨fun tid => if tid = 0 then List.range n else [],((List.range n).flatMap (work 0)).map fun step => (0,step),⟨?_,?_,?_⟩,?_⟩
    · simp [List.range_succ]
    · intro x listed
      obtain ⟨step,_,rfl⟩ := List.mem_map.mp listed
      exact Nat.zero_lt_two
    · intro tid below
      by_cases here : tid = 0
      · subst here
        simp [turns,List.filter_map,Function.comp_def]
      · simp [turns,List.filter_map,Function.comp_def,Ne.symm here,here]
    · simp [Function.comp_def]

def bytesTensor (rows cols : Nat) : TensorInfo := ⟨⟨0,[]⟩,2,[rows,cols],24,0,none,rows*cols,rows*cols,cols⟩

-- 2^31 rows of one byte: the count is negative as an int, and no row is written.
theorem halfRange_unwritten : ¬MatmulExact (K:=ℚ) true (bytesTensor (2^31) 1) false 0 1 (some (firstThread Cell ℚ)) := by
  refine skipped_inexact rfl (by decide) (by decide) (by decide) fun counted => ?_
  rcases counted with other | plain | single | few
  · exact other rfl
  · cases plain
  · exact absurd (single _ rfl) (by decide)
  · exact absurd few (by decide)

-- 21 rows of 5 columns for 13 inputs: a full and a partial chunk, and every kind of tile.
theorem oddShape_exact : MatmulExact (K:=ℚ) true (bytesTensor 21 5) false 2 13 (some (firstThread Cell ℚ)) :=
  (opMatmul_exact_iff rfl rfl (by decide) (by decide) (by decide)).mpr ⟨by decide,.inl (by decide)⟩

end Runs

end TinyLlama.Cpu
