import TinyLlama.Graph.Plan

namespace TinyLlama.Graph
open Slots Gguf

variable {g : List GraphNode} {c : ArchConfig} {nUbatch : Nat}

theorem releaseFrom_ge (i : Nat) (nodes : List GraphNode) : ∀ j last, last ≤ releaseFrom i j nodes last := by
  induction nodes with
  | nil => intro j last; exact Nat.le_refl _
  | cons node rest ih =>
    intro j last
    refine Nat.le_trans ?_ (ih (j+1) _)
    split <;> omega

theorem release_ge (g : List GraphNode) (i : Nat) : i ≤ release g i := releaseFrom_ge i g 0 i

theorem releaseFrom_reads (i : Nat) (nodes : List GraphNode) : ∀ j last k node, nodes[k]? = some node →
    node.reads i = true → j+k ≤ releaseFrom i j nodes last := by
  induction nodes with
  | nil => intro j last k node listed; simp at listed
  | cons first rest ih =>
    intro j last k node listed reads
    cases k with
    | zero =>
      obtain rfl : first = node := by simpa using listed
      refine Nat.le_trans ?_ (releaseFrom_ge i rest (j+1) _)
      split
      · exact Nat.le_refl _
      · rename_i early
        simp only [reads,true_and,gt_iff_lt,Nat.not_lt] at early
        omega
    | succ k =>
      have later := ih (j+1) (if first.reads i ∧ j > last then j else last) k node (by simpa using listed) reads
      rw [releaseFrom]
      omega

-- A node is not released before its readers have run.
theorem release_reads {node : GraphNode} (listed : g[k]? = some node) (reads : node.reads i = true) : k ≤ release g i := by
  have late := releaseFrom_reads i g 0 i k node listed reads
  rw [Nat.zero_add] at late
  exact late

def slotsOf (g : List GraphNode) (c : ArchConfig) (nUbatch : Nat) (s : Sweep) (b : BackendType) (p : Nat → Bool) (i : Nat) :
    List Slot := ((List.range i).filter fun j => backendOf g j = b ∧ p j).map (s.slot g c nUbatch)

-- Not yet given back when node i is placed, and of these those still to be read.
def held (g : List GraphNode) (i j : Nat) : Bool := i ≤ release g j+1
def unread (g : List GraphNode) (i j : Nat) : Bool := i ≤ release g j
def spent (g : List GraphNode) (i j : Nat) : Bool := release g j+1 = i

theorem reclaim_eq (s : Sweep) (i : Nat) (b : BackendType) :
    reclaim g c nUbatch i s b = s.free b++slotsOf g c nUbatch s b (spent g i) i := by
  unfold reclaim
  rw [giveBack_eq (s.slot g c nUbatch) (backendOf g) (fun j => release g j+1 ≠ i)]
  simp [spent,slotsOf]

theorem held_perm (s : Sweep) (b : BackendType) (i : Nat) : (slotsOf g c nUbatch s b (held g i) i).Perm
    (slotsOf g c nUbatch s b (unread g i) i++slotsOf g c nUbatch s b (spent g i) i) := by
  unfold slotsOf
  rw [← List.map_append]
  refine (filter_split _ _ _ (fun j => ?_) (fun j => ?_) _).map _
  · have late : held g i j = (unread g i j || spent g i j) := by
      simp only [held,unread,spent,← Bool.decide_or]
      exact decide_eq_decide.mpr (by omega)
    rw [late]
    cases unread g i j <;> cases spent g i j <;> simp
  · simp only [unread,spent,decide_eq_true_eq]
    rintro ⟨⟨_,late⟩,_,now⟩
    omega

-- What the sweep keeps while it places node after node.
structure SweepInv (g : List GraphNode) (c : ArchConfig) (nUbatch i : Nat) (s : Sweep) : Prop where
  length : s.off.length = i
  placed : ∀ b, Placed (slotsOf g c nUbatch s b (held g i) i++s.free b) (s.bump b)
  small : ∀ b, s.bump b ≤ ((List.range i).map (need g c nUbatch)).sum

theorem slot_appended (s : Sweep) (free : BackendType → List Slot) (bump : BackendType → Nat) (off : Nat)
    (below : j < s.off.length) : Sweep.slot ⟨s.off++[off],free,bump⟩ g c nUbatch j = s.slot g c nUbatch j := by
  simp only [Sweep.slot,List.getD_eq_getElem?_getD,List.getElem?_append_left below]

theorem slotsOf_place (s : Sweep) (length : s.off.length = i) (free : BackendType → List Slot)
    (bump : BackendType → Nat) (off : Nat) (b : BackendType) :
    slotsOf g c nUbatch ⟨s.off++[off],free,bump⟩ b (held g (i+1)) (i+1) =
      slotsOf g c nUbatch s b (unread g i) i++(if backendOf g i = b then [⟨off,need g c nUbatch i⟩] else []) := by
  have later : release g i ≥ i := release_ge g i
  have same : ∀ j, held g (i+1) j = unread g i j := fun j => decide_eq_decide.mpr (by omega)
  unfold slotsOf
  simp only [same]
  rw [List.range_succ,List.filter_append,List.map_append]
  congr 1
  · refine List.map_congr_left fun j listed => slot_appended s free bump off ?_
    rw [length]
    exact List.mem_range.mp (List.mem_filter.mp listed).1
  · by_cases here : backendOf g i = b
    · have mine : unread g i i = true := decide_eq_true later
      subst length
      simp [here,mine,Sweep.slot]
    · simp [here]

theorem sweepStep_inv {s : Sweep} (inv : SweepInv g c nUbatch i s)
    (room : ((List.range (i+1)).map (need g c nUbatch)).sum < 2^64) : SweepInv g c nUbatch (i+1) (sweepStep g c nUbatch s i) := by
  have free : ∀ b, Placed (slotsOf g c nUbatch s b (unread g i) i++reclaim g c nUbatch i s b) (s.bump b) := by
    intro b
    refine (inv.placed b).perm ?_
    rw [reclaim_eq]
    calc (slotsOf g c nUbatch s b (held g i) i++s.free b).Perm _ := (held_perm s b i).append_right _
      _ |>.Perm _ := by
        rw [List.append_assoc]
        exact List.perm_append_comm.append_left _
  have total : ((List.range (i+1)).map (need g c nUbatch)).sum =
      ((List.range i).map (need g c nUbatch)).sum+need g c nUbatch i := by
    rw [List.range_succ,List.map_append,List.sum_append]
    simp
  unfold sweepStep
  simp only
  cases found : bestFit (need g c nUbatch i) uint64Max 0 (reclaim g c nUbatch i s (backendOf g i)) none with
  | some r =>
    obtain ⟨chunk,_,listed,fits⟩ := (bestFit_fits _ _ _ _ _ found).resolve_left (by simp)
    rw [Nat.sub_zero] at listed
    obtain ⟨below,same⟩ := List.getElem?_eq_some_iff.mp listed
    have taken := swapRemove_perm _ r.1 below
    rw [same] at taken
    refine ⟨by simp [inv.length],fun b => ?_,fun b => ?_⟩
    · simp only
      rw [slotsOf_place s inv.length]
      by_cases here : backendOf g i = b
      · subst here
        rw [if_pos rfl,Function.update_self,List.getD_eq_getElem?_getD,listed,Option.getD_some]
        have moved := (free (backendOf g i)).perm ((taken.append_left _).trans List.perm_middle)
        refine (moved.shrink fits).perm ?_
        rw [List.append_assoc]
        exact List.perm_middle.symm
      · rw [if_neg here,List.append_nil,Function.update_of_ne (Ne.symm here)]
        exact free b
    · have before := inv.small b
      simp only
      omega
  | none =>
    have before := inv.small (backendOf g i)
    have exact' : u64 (s.bump (backendOf g i)+need g c nUbatch i) = s.bump (backendOf g i)+need g c nUbatch i :=
      u64_of_lt (by omega)
    refine ⟨by simp [inv.length],fun b => ?_,fun b => ?_⟩
    · simp only
      rw [slotsOf_place s inv.length,exact']
      by_cases here : backendOf g i = b
      · subst here
        rw [if_pos rfl,Function.update_self]
        refine ((free (backendOf g i)).extend _).perm ?_
        rw [List.append_assoc]
        exact List.perm_middle.symm
      · rw [if_neg here,List.append_nil,Function.update_of_ne (Ne.symm here)]
        exact free b
    · simp only
      by_cases here : backendOf g i = b
      · subst here
        rw [Function.update_self,exact']
        omega
      · have other := inv.small b
        rw [Function.update_of_ne (Ne.symm here)]
        omega

theorem sweepTo_succ (n : Nat) : sweepTo g c nUbatch (n+1) = sweepStep g c nUbatch (sweepTo g c nUbatch n) n := by
  rw [sweepTo,List.range_succ,List.foldl_append]
  rfl

theorem sweepTo_inv (n : Nat) (room : ((List.range n).map (need g c nUbatch)).sum < 2^64) :
    SweepInv g c nUbatch n (sweepTo g c nUbatch n) := by
  induction n with
  | zero => exact ⟨rfl,fun _ => ⟨.nil,by simp [slotsOf,sweepTo]⟩,fun _ => Nat.zero_le _⟩
  | succ n ih =>
    rw [sweepTo_succ]
    refine sweepStep_inv (ih ?_) room
    rw [List.range_succ,List.map_append,List.sum_append] at room
    omega

-- No byte count wraps.
structure Fits (g : List GraphNode) (c : ArchConfig) (nUbatch : Nat) : Prop where
  each : ∀ i < g.length, outBytes g c nUbatch i+15 < 2^64
  total : ((List.range g.length).map (need g c nUbatch)).sum < 2^64

def planSlot (g : List GraphNode) (c : ArchConfig) (nUbatch : Nat) (i : Nat) : Slot :=
  (arenaPlan g c nUbatch).slot g c nUbatch i

theorem sweepStep_off (s : Sweep) (i : Nat) : ∃ off, (sweepStep g c nUbatch s i).off = s.off++[off] := by
  unfold sweepStep
  simp only
  split
  · exact ⟨_,rfl⟩
  · exact ⟨_,rfl⟩

theorem sweepTo_length (n : Nat) : (sweepTo g c nUbatch n).off.length = n := by
  induction n with
  | zero => rfl
  | succ n ih =>
    obtain ⟨off,step⟩ := @sweepStep_off g c nUbatch (sweepTo g c nUbatch n) n
    rw [sweepTo_succ,step,List.length_append,ih,List.length_singleton]

theorem sweepTo_slot (n : Nat) : ∀ k, j < k → k ≤ n →
    (sweepTo g c nUbatch n).slot g c nUbatch j = (sweepTo g c nUbatch k).slot g c nUbatch j := by
  induction n with
  | zero => intro k below upto; omega
  | succ n ih =>
    intro k below upto
    by_cases same : k = n+1
    · rw [same]
    · obtain ⟨off,step⟩ := @sweepStep_off g c nUbatch (sweepTo g c nUbatch n) n
      have inside : j < (sweepTo g c nUbatch n).off.length := by rw [sweepTo_length]; omega
      rw [← ih k below (by omega)]
      simp only [Sweep.slot,sweepTo_succ,step,List.getD_eq_getElem?_getD,List.getElem?_append_left inside]

theorem need_room (fits : Fits g c nUbatch) (upto : n ≤ g.length) :
    ((List.range n).map (need g c nUbatch)).sum < 2^64 := by
  refine Nat.lt_of_le_of_lt ?_ fits.total
  obtain ⟨k,whole⟩ := Nat.exists_eq_add_of_le upto
  rw [whole,List.range_add,List.map_append,List.sum_append]
  exact Nat.le_add_right _ _

-- At the step that places k, an earlier slot still to be read is apart from k's.
theorem planSlot_apart (fits : Fits g c nUbatch) (below : j < k) (upto : k < g.length) (late : k ≤ release g j)
    (same : backendOf g j = backendOf g k) : Apart (planSlot g c nUbatch j) (planSlot g c nUbatch k) := by
  have inv := @sweepTo_inv g c nUbatch (k+1) (need_room fits upto)
  have apart := (List.pairwise_append.mp (inv.placed (backendOf g k)).apart).1
  have pair : [j,k].Sublist ((List.range (k+1)).filter fun i => backendOf g i = backendOf g k ∧ held g (k+1) i) := by
    have own := release_ge g k
    have both : ([j,k].filter fun i => decide (backendOf g i = backendOf g k ∧ held g (k+1) i = true)) = [j,k] := by
      simp [held,same,late,own]
    rw [← both]
    refine List.Sublist.filter _ ?_
    rw [List.range_succ]
    exact (List.singleton_sublist.mpr (List.mem_range.mpr below)).append (List.Sublist.refl [k])
  have slots := apart.sublist (pair.map _)
  simp only [List.map_cons,List.map_nil,List.pairwise_cons,List.mem_singleton,forall_eq] at slots
  rw [planSlot,planSlot,arenaPlan,sweepTo_slot g.length (k+1) (by omega) upto,
    sweepTo_slot g.length (k+1) (Nat.lt_succ_self k) upto]
  exact slots.1

theorem sweepStep_bump (fits : Fits g c nUbatch) (upto : n < g.length) (b : BackendType) :
    (sweepTo g c nUbatch n).bump b ≤ (sweepTo g c nUbatch (n+1)).bump b := by
  have inv := @sweepTo_inv g c nUbatch n (need_room fits (Nat.le_of_lt upto))
  have room := need_room fits (show n+1 ≤ g.length from upto)
  have small := inv.small b
  rw [List.range_succ,List.map_append,List.sum_append] at room
  simp only [List.map_cons,List.map_nil,List.sum_cons,List.sum_nil] at room
  rw [sweepTo_succ,sweepStep]
  split
  · exact Nat.le_refl _
  · simp only
    by_cases here : b = backendOf g n
    · subst here
      rw [Function.update_self,u64_of_lt (by omega)]
      exact Nat.le_add_right _ _
    · rw [Function.update_of_ne here]

theorem planSlot_inside (fits : Fits g c nUbatch) (below : i < g.length) :
    (planSlot g c nUbatch i).off+(planSlot g c nUbatch i).size ≤ (arenaPlan g c nUbatch).bump (backendOf g i) := by
  have inv := @sweepTo_inv g c nUbatch (i+1) (need_room fits below)
  have own := release_ge g i
  have listed : (sweepTo g c nUbatch (i+1)).slot g c nUbatch i ∈
      slotsOf g c nUbatch (sweepTo g c nUbatch (i+1)) (backendOf g i) (held g (i+1)) (i+1) := by
    refine List.mem_map_of_mem (List.mem_filter.mpr ⟨List.mem_range.mpr (Nat.lt_succ_self i),?_⟩)
    simp [held,own]
  have early := (inv.placed (backendOf g i)).inside _ (List.mem_append_left _ listed)
  have grows : ∀ n, i+1 ≤ n → n ≤ g.length →
      (sweepTo g c nUbatch (i+1)).bump (backendOf g i) ≤ (sweepTo g c nUbatch n).bump (backendOf g i) := by
    intro n from' upto
    induction n, from' using Nat.le_induction with
    | base => exact Nat.le_refl _
    | succ n _ ih => exact Nat.le_trans (ih (by omega)) (sweepStep_bump fits upto _)
  rw [planSlot,arenaPlan,sweepTo_slot g.length (i+1) (Nat.lt_succ_self i) below]
  exact Nat.le_trans early (grows g.length below (Nat.le_refl _))

theorem planSlot_fits (fits : Fits g c nUbatch) (below : i < g.length) :
    outBytes g c nUbatch i ≤ (planSlot g c nUbatch i).size := by
  have small := fits.each i below
  change _ ≤ align16 (u64 (outBytes g c nUbatch i))
  rw [u64_of_lt (by omega),align16,u64_of_lt small]
  omega

end TinyLlama.Graph
