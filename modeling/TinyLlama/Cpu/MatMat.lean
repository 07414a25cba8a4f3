import TinyLlama.Lib.Grid
import TinyLlama.Lib.Simd

-- backend/cpu/cpu_x86.c: C = A B in tiles of four rows and one register's columns.
namespace TinyLlama.Cpu
open Simd TinyLlama.Sweep Grid

-- for (; j + w <= n; j += w) wide(j); for (; j < n; j++) narrow(j);
def loops {α : Type} (w n : Nat) (wide narrow : Nat → List α) : List α :=
  ((List.range (n/w)).flatMap fun t => wide (t*w))++(List.range (n-n/w*w)).flatMap fun t => narrow (n/w*w+t)

section Kernels
variable {K : Type} [Field K]

-- The floats in a register of the build.
def registerWidth (avx2 : Bool) : Nat := if avx2 then 8 else 4

def mulAddPs (avx2 : Bool) (a b v : Ps K) : Ps K := if avx2 then fmaddPs a b v else addPs v (mulPs a b)

-- A tile from row i and column j on, as the stores it makes to C.
abbrev Tile (K : Type) := (Nat → K) → (Nat → K) → List (Nat × K)

def vectorTile (avx2 : Bool) (k n h i j : Nat) : Tile K := fun A B =>
  let v := k.fold (fun t _ (v : Nat → Ps K) =>
    let b := loaduPs B (t*n+j)
    fun p => mulAddPs avx2 (set1Ps (A ((i+p)*k+t))) b (v p)) fun _ => setzeroPs
  (List.range h).flatMap fun p => (List.range (registerWidth avx2)).map fun lane => ((i+p)*n+j+lane,v p lane)

def scalarTile (k n h i j : Nat) : Tile K := fun A B =>
  let s := k.fold (fun t _ (s : Nat → K) =>
    let b := B (t*n+j)
    fun p => s p+A ((i+p)*k+t)*b) fun _ => 0
  (List.range h).map fun p => ((i+p)*n+j,s p)

-- The tiles of h rows from row i on.
def bandTiles (avx2 : Bool) (k n h i : Nat) : List (Tile K) :=
  loops (registerWidth avx2) n (fun j => [vectorTile avx2 k n h i j]) fun j => [scalarTile k n h i j]

def mulMatMat (avx2 : Bool) (m k n : Nat) : List (Tile K) :=
  if m = 0 ∨ k = 0 ∨ n = 0 then [] else loops 4 m (bandTiles avx2 k n 4) (bandTiles avx2 k n 1)

def product (k n : Nat) (A B : Nat → K) (i j : Nat) : K := ∑ t ∈ Finset.range k,A (i*k+t)*B (t*n+j)

def tileCells (h w i j : Nat) : List (Nat × Nat) := (List.range h).flatMap fun p => (List.range w).map fun lane => (i+p,j+lane)

def stores (k n : Nat) (A B : Nat → K) (cells : List (Nat × Nat)) : List (Nat × K) :=
  cells.map fun q => (q.1*n+q.2,product k n A B q.1 q.2)

theorem mulAddPs_at (avx2 : Bool) (a b v : Ps K) (lane : Nat) : mulAddPs avx2 a b v lane = v lane+a lane*b lane := by
  cases avx2
  · rfl
  · exact add_comm _ _

theorem vectorTile_eq (avx2 : Bool) (k n h i j : Nat) (A B : Nat → K) :
    vectorTile avx2 k n h i j A B = stores k n A B (tileCells h (registerWidth avx2) i j) := by
  unfold vectorTile stores tileCells
  dsimp only
  rw [List.map_flatMap]
  refine List.flatMap_congr fun p _ => ?_
  rw [List.map_map]
  refine List.map_congr_left fun lane _ => ?_
  have total := fold_total (n:=k) (m:=fun v : Nat → Ps K => v p lane) (d:=fun t => A ((i+p)*k+t)*B (t*n+(j+lane)))
    (b:=fun t v p => mulAddPs avx2 (set1Ps (A ((i+p)*k+t))) (loaduPs B (t*n+j)) (v p))
    (fun t _ v => (mulAddPs_at avx2 _ _ _ _).trans (by simp only [set1Ps_at,loaduPs_at,Nat.add_assoc])) fun _ => setzeroPs
  rw [total.trans (zero_add _),Nat.add_assoc]
  rfl

theorem scalarTile_eq (k n h i j : Nat) (A B : Nat → K) :
    scalarTile k n h i j A B = stores k n A B (tileCells h 1 i j) := by
  unfold scalarTile stores tileCells
  dsimp only
  rw [List.map_flatMap,← List.flatMap_singleton' ((List.range h).map _),List.flatMap_map]
  refine List.flatMap_congr fun p _ => ?_
  have total := fold_total (n:=k) (m:=fun s : Nat → K => s p) (d:=fun t => A ((i+p)*k+t)*B (t*n+j))
    (b:=fun t s p => s p+A ((i+p)*k+t)*B (t*n+j)) (fun _ _ _ => rfl) fun _ => 0
  rw [total.trans (zero_add _)]
  rfl

end Kernels

section Cover
variable {α : Type}

theorem loops_map {β : Type} (f : α → β) (w n : Nat) (wide narrow : Nat → List α) :
    (loops w n wide narrow).map f = loops w n (fun j => (wide j).map f) fun j => (narrow j).map f := by
  simp only [loops,List.map_append,List.map_flatMap]

theorem loops_flatten (w n : Nat) (wide narrow : Nat → List (List α)) :
    (loops w n wide narrow).flatten = loops w n (fun j => (wide j).flatten) fun j => (narrow j).flatten := by
  simp only [loops,← List.flatMap_id,List.flatMap_append,List.flatMap_assoc]

theorem swap_perm {β γ : Type} (f : α → β → γ) (l : List α) (l' : List β) :
    (l.flatMap fun a => l'.map (f a)).Perm (l'.flatMap fun b => l.map fun a => f a b) := by
  induction l with
  | nil => simp
  | cons a rest ih =>
    rw [List.flatMap_cons]
    exact (ih.append_left _).trans (List.map_append_flatMap_perm ..)

theorem loops_perm {w n : Nat} {wide narrow : Nat → List α} {f : Nat → List α}
    (block : ∀ j,(wide j).Perm ((List.range w).flatMap fun p => f (j+p))) (one : ∀ j,(narrow j).Perm (f j)) :
    (loops w n wide narrow).Perm ((List.range n).flatMap f) := by
  have front : ((List.range (n/w)).flatMap fun t => wide (t*w)).Perm ((List.range (n/w*w)).flatMap f) := by
    rw [← flatMap_tiles]
    exact List.Perm.flatMap_left _ fun t _ => block (t*w)
  have rest : ((List.range (n-n/w*w)).flatMap fun t => narrow (n/w*w+t)).Perm
      (((List.range (n-n/w*w)).map fun t => n/w*w+t).flatMap f) := by
    rw [List.flatMap_map]
    exact List.Perm.flatMap_left _ fun t _ => one (n/w*w+t)
  have whole : List.range n = List.range (n/w*w)++(List.range (n-n/w*w)).map fun t => n/w*w+t := by
    rw [← List.range_add,Nat.add_sub_cancel' (Nat.div_mul_le_self n w)]
  rw [whole,List.flatMap_append]
  exact front.append rest

def rowCells (n i : Nat) : List (Nat × Nat) := (List.range n).map fun j => (i,j)

def bandCells (avx2 : Bool) (n h i : Nat) : List (List (Nat × Nat)) :=
  loops (registerWidth avx2) n (fun j => [tileCells h (registerWidth avx2) i j]) fun j => [tileCells h 1 i j]

def kernelCells (avx2 : Bool) (m n : Nat) : List (List (Nat × Nat)) := loops 4 m (bandCells avx2 n 4) (bandCells avx2 n 1)

theorem bandCells_perm (avx2 : Bool) (n h i : Nat) :
    (bandCells avx2 n h i).flatten.Perm ((List.range h).flatMap fun p => rowCells n (i+p)) := by
  have block : ∀ w j,(tileCells h w i j).Perm ((List.range w).flatMap fun lane => (List.range h).map fun p => (i+p,j+lane)) :=
    fun w j => swap_perm (fun p lane => (i+p,j+lane)) (List.range h) (List.range w)
  have columns : (bandCells avx2 n h i).flatten.Perm ((List.range n).flatMap fun j => (List.range h).map fun p => (i+p,j)) := by
    unfold bandCells
    rw [loops_flatten]
    refine loops_perm (fun j => ?_) fun j => ?_
    · rw [List.flatten_singleton]
      exact block _ j
    · rw [List.flatten_singleton]
      have one := block 1 j
      rwa [List.range_one,List.flatMap_singleton,Nat.add_zero] at one
  exact columns.trans (swap_perm (fun j p => (i+p,j)) (List.range n) (List.range h))

theorem kernelCells_perm (avx2 : Bool) (m n : Nat) :
    (kernelCells avx2 m n).flatten.Perm ((List.range m).flatMap (rowCells n)) := by
  unfold kernelCells
  rw [loops_flatten]
  refine loops_perm (fun i => bandCells_perm avx2 n 4 i) fun i => ?_
  have one := bandCells_perm avx2 n 1 i
  rwa [List.range_one,List.flatMap_singleton,Nat.add_zero] at one

variable {K : Type} [Field K]

theorem bandTiles_stores (avx2 : Bool) (k n h i : Nat) :
    (bandTiles avx2 k n h i : List (Tile K)) = (bandCells avx2 n h i).map fun cells A B => stores k n A B cells := by
  have vector : ∀ j,(vectorTile avx2 k n h i j : Tile K) = fun A B => stores k n A B (tileCells h (registerWidth avx2) i j) :=
    fun j => funext fun A => funext fun B => vectorTile_eq avx2 k n h i j A B
  have scalar : ∀ j,(scalarTile k n h i j : Tile K) = fun A B => stores k n A B (tileCells h 1 i j) :=
    fun j => funext fun A => funext fun B => scalarTile_eq k n h i j A B
  unfold bandTiles bandCells
  rw [loops_map]
  simp only [List.map_cons,List.map_nil,vector,scalar]

theorem mulMatMat_stores (avx2 : Bool) {m k n : Nat} (tall : 0 < m) (deep : 0 < k) (wide : 0 < n) :
    (mulMatMat avx2 m k n : List (Tile K)) = (kernelCells avx2 m n).map fun cells A B => stores k n A B cells := by
  unfold mulMatMat kernelCells
  rw [if_neg (by omega),loops_map]
  exact congrArg₂ (loops 4 m) (funext fun i => bandTiles_stores avx2 k n 4 i) (funext fun i => bandTiles_stores avx2 k n 1 i)

end Cover

end TinyLlama.Cpu
