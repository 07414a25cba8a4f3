import TinyLlama.Lib.Warp

-- The order in which a grid's blocks and warps come to the rows of an output.
namespace TinyLlama.Grid
open Warp

def stridedList (start step n : Nat) : List Nat := (List.range (rounds start step n)).map fun t => start+t*step

-- Grid-stride: block bx of gx, warp wp of w, from row bx*w + wp on.
def gridStride (gx w rows : Nat) : List Nat :=
  (List.range gx).flatMap fun bx => (List.range w).flatMap fun wp => stridedList (bx*w+wp) (gx*w) rows

-- One row for each of the w warps (or threads) of a block, past the end none.
def gridOnce (gx w rows : Nat) : List Nat :=
  (List.range gx).flatMap fun bx => ((List.range w).map fun wp => bx*w+wp).filter (· < rows)

-- Grid-stride over groups of k rows.
def gridGroups (gx w k rows : Nat) : List Nat :=
  (List.range gx).flatMap fun bx => (List.range w).flatMap fun wp =>
    (stridedList (bx*(w*k)+wp*k) (gx*(w*k)) rows).flatMap fun r0 => ((List.range k).map fun sub => r0+sub).filter (· < rows)

-- The writes of a launch whose batch rows each go through the rows in the given order.
def gridWrites {α : Type} (batch rows : Nat) (order : List Nat) (value : Nat → Nat → α) : List (Nat × α) :=
  (List.range batch).flatMap fun b => order.map fun r => (b*rows+r,value b r)

section Tiles
variable {α : Type}

theorem range_tiles (a b : Nat) : ((List.range a).flatMap fun i => (List.range b).map fun j => i*b+j) = List.range (a*b) := by
  induction a with
  | zero => simp
  | succ a ih =>
    rw [List.range_succ,List.flatMap_append,ih,List.flatMap_singleton,Nat.succ_mul,List.range_add]

theorem flatMap_tiles (a b : Nat) (f : Nat → List α) :
    ((List.range a).flatMap fun i => (List.range b).flatMap fun j => f (i*b+j)) = (List.range (a*b)).flatMap f := by
  rw [← range_tiles,List.flatMap_assoc]
  refine List.flatMap_congr fun i _ => ?_
  rw [List.flatMap_map]

theorem filter_range {m n : Nat} (fits : n ≤ m) : (List.range m).filter (· < n) = List.range n := by
  obtain ⟨k,rfl⟩ := Nat.exists_eq_add_of_le fits
  rw [List.range_add,List.filter_append]
  have front : (List.range n).filter (· < n) = List.range n := List.filter_eq_self.mpr fun r member => by simpa using member
  have rest : ((List.range k).map fun x => n+x).filter (· < n) = [] := by
    refine List.filter_eq_nil_iff.mpr fun r member => ?_
    obtain ⟨x,_,rfl⟩ := List.mem_map.mp member
    simp
  rw [front,rest,List.append_nil]

end Tiles

section Strides
variable {start step n : Nat}

theorem mem_stridedList (wide : 0 < step) {c : Nat} : c ∈ stridedList start step n ↔ c < n ∧ ∃ t,start+t*step = c := by
  simp only [stridedList,List.mem_map,List.mem_range,lt_rounds wide]
  constructor
  · rintro ⟨t,below,rfl⟩
    exact ⟨below,t,rfl⟩
  · rintro ⟨below,t,rfl⟩
    exact ⟨t,below,rfl⟩

theorem stridedList_nodup (wide : 0 < step) : (stridedList start step n).Nodup :=
  List.nodup_range.map fun _ _ same => Nat.eq_of_mul_eq_mul_right wide (Nat.add_left_cancel same)

theorem strides_perm (wide : 0 < step) : ((List.range step).flatMap fun o => stridedList o step n).Perm (List.range n) := by
  refine (List.perm_ext_iff_of_nodup ?_ List.nodup_range).mpr fun c => ?_
  · refine List.nodup_flatMap.mpr ⟨fun o _ => stridedList_nodup wide,?_⟩
    refine List.nodup_range.pairwise_of_forall_ne fun o inside o' inside' other => ?_
    refine List.disjoint_left.mpr fun c here there => other ?_
    obtain ⟨_,t,rfl⟩ := (mem_stridedList wide).mp here
    obtain ⟨_,t',same⟩ := (mem_stridedList wide).mp there
    have left := congrArg (· % step) same
    simpa [Nat.mod_eq_of_lt (List.mem_range.mp inside),Nat.mod_eq_of_lt (List.mem_range.mp inside')] using left.symm
  · rw [List.mem_flatMap,List.mem_range]
    constructor
    · rintro ⟨o,_,member⟩
      exact ((mem_stridedList wide).mp member).1
    · intro below
      refine ⟨c % step,List.mem_range.mpr (Nat.mod_lt c wide),(mem_stridedList wide).mpr ⟨below,c/step,?_⟩⟩
      rw [Nat.mul_comm,Nat.mod_add_div]

theorem gridStride_perm {gx w : Nat} (some' : 0 < gx) (wide : 0 < w) (rows : Nat) :
    (gridStride gx w rows).Perm (List.range rows) := by
  unfold gridStride
  rw [flatMap_tiles gx w fun o => stridedList o (gx*w) rows]
  exact strides_perm (Nat.mul_pos some' wide)

theorem gridOnce_eq {gx w rows : Nat} (covers : rows ≤ gx*w) : gridOnce gx w rows = List.range rows := by
  unfold gridOnce
  rw [← filter_range covers,← range_tiles,List.filter_flatMap]

theorem stridedList_scaled {k : Nat} (some' : 0 < k) (wide : 0 < step) (rows : Nat) :
    stridedList (start*k) (step*k) rows = (stridedList start step ((rows+k-1)/k)).map fun q => q*k := by
  have count : rounds (start*k) (step*k) rows = rounds start step ((rows+k-1)/k) := by
    refine eq_of_forall_lt_iff fun t => ?_
    have place : start*k+t*(step*k) = (start+t*step)*k := by ring
    rw [lt_rounds (Nat.mul_pos wide some'),lt_rounds wide,place,Nat.lt_iff_add_one_le (m:=start+t*step),
      Nat.le_div_iff_mul_le some',Nat.succ_mul]
    omega
  unfold stridedList
  rw [count,List.map_map]
  refine List.map_congr_left fun t _ => ?_
  simp only [Function.comp_apply]
  ring

theorem gridGroups_perm {gx w k : Nat} (some' : 0 < gx) (wide : 0 < w) (tall : 0 < k) (rows : Nat) :
    (gridGroups gx w k rows).Perm (List.range rows) := by
  set group := fun q => ((List.range k).map fun sub => q*k+sub).filter (· < rows) with named
  have grouped : gridGroups gx w k rows =
      ((List.range (gx*w)).flatMap fun q => stridedList q (gx*w) ((rows+k-1)/k)).flatMap group := by
    rw [List.flatMap_assoc,← flatMap_tiles]
    refine List.flatMap_congr fun bx _ => List.flatMap_congr fun wp _ => ?_
    have first' : bx*(w*k)+wp*k = (bx*w+wp)*k := by ring
    have stride : gx*(w*k) = gx*w*k := by ring
    rw [first',stride,stridedList_scaled tall (Nat.mul_pos some' wide),List.flatMap_map]
  have enough : rows ≤ (rows+k-1)/k*k := by
    have split := Nat.div_add_mod (rows+k-1) k
    have small := Nat.mod_lt (rows+k-1) tall
    rw [Nat.mul_comm] at split
    omega
  have flat : (List.range ((rows+k-1)/k)).flatMap group = List.range rows := by
    rw [← filter_range enough,← range_tiles,List.filter_flatMap]
  rw [grouped,← flat]
  exact (strides_perm (Nat.mul_pos some' wide)).flatMap_right group

end Strides

section Writes
variable {α : Type} {batch rows : Nat} {order : List Nat}

theorem gridWrites_once (value : Nat → Nat → α) (all : order.Perm (List.range rows)) :
    ((gridWrites batch rows order value).map Prod.fst).Perm (List.range (batch*rows)) := by
  unfold gridWrites
  rw [List.map_flatMap,← range_tiles]
  refine List.Perm.flatMap_left _ fun b _ => ?_
  rw [List.map_map]
  exact all.map fun r => b*rows+r

theorem gridWrites_value (value : Nat → Nat → α) (all : order.Perm (List.range rows)) {b r : Nat} (row : b < batch)
    (below : r < rows) : (b*rows+r,value b r) ∈ gridWrites batch rows order value := by
  refine List.mem_flatMap.mpr ⟨b,List.mem_range.mpr row,List.mem_map.mpr ⟨r,?_,rfl⟩⟩
  exact all.mem_iff.mpr (List.mem_range.mpr below)

end Writes

end TinyLlama.Grid
