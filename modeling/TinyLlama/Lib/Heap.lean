import Mathlib.Tactic
import Mathlib.Data.List.Sort

-- A binary min-heap over places 0, 1, ..., with the two sifts by swaps.
namespace TinyLlama.Heap
variable {α K : Type}

def swap (h : Nat → α) (i j : Nat) : Nat → α := Function.update (Function.update h i (h j)) j (h i)

def entries (n : Nat) (h : Nat → α) : List α := (List.range n).map h

def Shuffled (n : Nat) (h h' : Nat → α) : Prop := ∃ e : Equiv.Perm Nat,(∀ k,n ≤ k → e k = k) ∧ h' = h ∘ e

section Entries
variable {n : Nat} {h h' h'' : Nat → α}

theorem swap_apply (h : Nat → α) (i j k : Nat) : swap h i j k = h (Equiv.swap i j k) := by
  rw [swap,Equiv.swap_apply_def,Function.update_apply]
  by_cases second : k = j
  · rw [if_pos second]
    by_cases first' : k = i
    · rw [if_pos first',← first',second]
    · rw [if_neg first',if_pos second]
  · rw [if_neg second,Function.update_apply]
    by_cases first' : k = i
    · rw [if_pos first',if_pos first']
    · rw [if_neg first',if_neg first',if_neg second]

theorem shuffled_refl (n : Nat) (h : Nat → α) : Shuffled n h h := ⟨1,fun _ _ => rfl,rfl⟩

theorem Shuffled.trans (one : Shuffled n h h') (two : Shuffled n h' h'') : Shuffled n h h'' := by
  obtain ⟨e,outside,rfl⟩ := one
  obtain ⟨e',outside',rfl⟩ := two
  exact ⟨e'.trans e,fun k high => by rw [Equiv.trans_apply,outside' k high,outside k high],rfl⟩

theorem shuffled_swap {i j : Nat} (left : i < n) (right : j < n) (h : Nat → α) : Shuffled n h (swap h i j) :=
  ⟨Equiv.swap i j,fun k high => Equiv.swap_apply_of_ne_of_ne (by omega) (by omega),funext (swap_apply h i j)⟩

theorem Shuffled.outside (same : Shuffled n h h') {k : Nat} (high : n ≤ k) : h' k = h k := by
  obtain ⟨e,outside,rfl⟩ := same
  exact congrArg h (outside k high)

theorem Shuffled.perm (same : Shuffled n h h') : (entries n h').Perm (entries n h) := by
  obtain ⟨e,outside,rfl⟩ := same
  have inside : ∀ k,e k < n ↔ k < n := fun k => by
    constructor
    · intro low
      by_contra high
      rw [outside k (by omega)] at low
      exact high low
    · intro low
      by_contra high
      have fixed := outside (e k) (by omega)
      rw [e.injective fixed] at high
      exact high low
  have places : ((List.range n).map e).Perm (List.range n) := by
    refine (List.perm_ext_iff_of_nodup (List.nodup_range.map e.injective) List.nodup_range).mpr fun k => ?_
    rw [List.mem_map,List.mem_range]
    constructor
    · rintro ⟨i,low,rfl⟩
      exact (inside i).mpr (List.mem_range.mp low)
    · intro low
      exact ⟨e.symm k,List.mem_range.mpr ((inside _).mp (by rwa [Equiv.apply_symm_apply])),e.apply_symm_apply k⟩
  have mapped := places.map h
  rwa [List.map_map] at mapped

theorem entries_succ (n : Nat) (h : Nat → α) : entries (n+1) h = entries n h++[h n] := by
  rw [entries,List.range_succ,List.map_append]
  rfl

theorem entries_congr (same : ∀ k < n,h k = h' k) : entries n h = entries n h' :=
  List.map_congr_left fun k member => same k (List.mem_range.mp member)

theorem mem_entries {x : α} : x ∈ entries n h ↔ ∃ k < n,h k = x := by
  simp [entries]

end Entries

section Sifts
variable [LinearOrder K] (key : α → K)

def IsHeap (n : Nat) (h : Nat → α) : Prop := ∀ i,0 < i → i < n → key (h ((i-1)/2)) ≤ key (h i)

-- The entry at c moves towards the root; c bounds the rounds.
def siftUp : Nat → Nat → (Nat → α) → Nat → α
  | 0,_,h => h
  | fuel+1,c,h =>
    if c = 0 then h
    else
      let p := (c-1)/2
      if key (h p) ≤ key (h c) then h else siftUp fuel p (swap h p c)

-- The smallest of p and its children below n.
def leastChild (n p : Nat) (h : Nat → α) : Nat :=
  let l := 2*p+1
  let r := l+1
  let m := if l < n ∧ key (h l) < key (h p) then l else p
  if r < n ∧ key (h r) < key (h m) then r else m

def siftDown (n : Nat) : Nat → Nat → (Nat → α) → Nat → α
  | 0,_,h => h
  | fuel+1,p,h =>
    let m := leastChild key n p h
    if m = p then h else siftDown n fuel m (swap h p m)

-- In order but for the entry at c, which may be too small, or the one at p, too large.
structure UpOrder (n c : Nat) (h : Nat → α) : Prop where
  apart : ∀ i,0 < i → i < n → i ≠ c → key (h ((i-1)/2)) ≤ key (h i)
  grand : 0 < c → ∀ i,0 < i → i < n → (i-1)/2 = c → key (h ((c-1)/2)) ≤ key (h i)

structure DownOrder (n p : Nat) (h : Nat → α) : Prop where
  apart : ∀ i,0 < i → i < n → (i-1)/2 ≠ p → key (h ((i-1)/2)) ≤ key (h i)
  grand : 0 < p → ∀ i,0 < i → i < n → (i-1)/2 = p → key (h ((p-1)/2)) ≤ key (h i)

variable {key} {n : Nat} {h : Nat → α}

theorem UpOrder.swapped {c : Nat} (order : UpOrder key n c h) (root : c ≠ 0) (inside : c < n) (small : key (h c) < key (h ((c-1)/2))) :
    UpOrder key n ((c-1)/2) (swap h ((c-1)/2) c) := by
  have up : (c-1)/2 < c := by omega
  have atC : swap h ((c-1)/2) c c = h ((c-1)/2) := by rw [swap_apply,Equiv.swap_apply_right]
  have atP : swap h ((c-1)/2) c ((c-1)/2) = h c := by rw [swap_apply,Equiv.swap_apply_left]
  have other : ∀ k,k ≠ (c-1)/2 → k ≠ c → swap h ((c-1)/2) c k = h k := fun k low high => by
    rw [swap_apply,Equiv.swap_apply_of_ne_of_ne low high]
  constructor
  · intro i some' below apart
    by_cases here : i = c
    · rw [here,atC,atP]
      exact small.le
    rw [other i apart here]
    by_cases child : (i-1)/2 = c
    · rw [child,atC]
      exact order.grand (by omega) i some' below child
    by_cases sibling : (i-1)/2 = (c-1)/2
    · rw [sibling,atP]
      have held := order.apart i some' below here
      rw [sibling] at held
      exact small.le.trans held
    · rw [other _ sibling child]
      exact order.apart i some' below here
  · intro some' i some'' below child
    have above : key (h (((c-1)/2-1)/2)) ≤ key (h ((c-1)/2)) := order.apart _ some' (by omega) (by omega)
    rw [other (((c-1)/2-1)/2) (by omega) (by omega)]
    by_cases here : i = c
    · rw [here,atC]
      exact above
    · rw [other i (by omega) here]
      have held := order.apart i some'' below here
      rw [child] at held
      exact above.trans held

theorem siftUp_heap (fuel : Nat) : ∀ (c : Nat) (h : Nat → α),UpOrder key n c h → c < n → c ≤ fuel → IsHeap key n (siftUp key fuel c h) := by
  induction fuel with
  | zero => exact fun c h order _ enough i some' below => order.apart i some' below (by omega)
  | succ fuel ih =>
    intro c h order inside enough
    unfold siftUp
    by_cases root : c = 0
    · rw [if_pos root]
      exact fun i some' below => order.apart i some' below (by omega)
    rw [if_neg root]
    dsimp only
    split
    · next settled =>
      intro i some' below
      by_cases here : i = c
      · rw [here]
        exact settled
      · exact order.apart i some' below here
    · next small => exact ih _ _ (order.swapped root inside (not_le.mp small)) (by omega) (by omega)

theorem siftUp_shuffled (fuel : Nat) : ∀ (c : Nat) (h : Nat → α),c < n → Shuffled n h (siftUp key fuel c h) := by
  induction fuel with
  | zero => exact fun c h _ => shuffled_refl n h
  | succ fuel ih =>
    intro c h inside
    unfold siftUp
    by_cases root : c = 0
    · rw [if_pos root]
      exact shuffled_refl n h
    rw [if_neg root]
    dsimp only
    split
    · exact shuffled_refl n h
    · exact (shuffled_swap (by omega) inside h).trans (ih _ _ (by omega))

variable (key) in
theorem leastChild_spec (n p : Nat) (h : Nat → α) :
    (leastChild key n p h = p ∨ 0 < leastChild key n p h ∧ (leastChild key n p h-1)/2 = p ∧ leastChild key n p h < n ∧
      key (h (leastChild key n p h)) < key (h p)) ∧
    ∀ i,0 < i → i < n → (i-1)/2 = p → key (h (leastChild key n p h)) ≤ key (h i) := by
  have kids : ∀ i,0 < i → (i-1)/2 = p → i = 2*p+1 ∨ i = 2*p+1+1 := fun i some' child => by omega
  unfold leastChild
  dsimp only
  by_cases left : 2*p+1 < n ∧ key (h (2*p+1)) < key (h p)
  · rw [if_pos left]
    by_cases right : 2*p+1+1 < n ∧ key (h (2*p+1+1)) < key (h (2*p+1))
    · rw [if_pos right]
      refine ⟨.inr ⟨by omega,by omega,right.1,right.2.trans left.2⟩,fun i some' below child => ?_⟩
      cases kids i some' child with
      | inl here => rw [here]; exact right.2.le
      | inr here => rw [here]
    · rw [if_neg right]
      refine ⟨.inr ⟨by omega,by omega,left⟩,fun i some' below child => ?_⟩
      cases kids i some' child with
      | inl here => rw [here]
      | inr here =>
        rw [here] at below ⊢
        exact not_lt.mp fun less => right ⟨below,less⟩
  · rw [if_neg left]
    by_cases right : 2*p+1+1 < n ∧ key (h (2*p+1+1)) < key (h p)
    · rw [if_pos right]
      refine ⟨.inr ⟨by omega,by omega,right⟩,fun i some' below child => ?_⟩
      cases kids i some' child with
      | inl here =>
        rw [here] at below ⊢
        exact right.2.le.trans (not_lt.mp fun less => left ⟨below,less⟩)
      | inr here => rw [here]
    · rw [if_neg right]
      refine ⟨.inl rfl,fun i some' below child => ?_⟩
      cases kids i some' child with
      | inl here =>
        rw [here] at below ⊢
        exact not_lt.mp fun less => left ⟨below,less⟩
      | inr here =>
        rw [here] at below ⊢
        exact not_lt.mp fun less => right ⟨below,less⟩

theorem DownOrder.swapped {p m : Nat} (order : DownOrder key n p h) (some' : 0 < m) (child : (m-1)/2 = p) (inside : m < n)
    (small : key (h m) < key (h p)) (least : ∀ i,0 < i → i < n → (i-1)/2 = p → key (h m) ≤ key (h i)) :
    DownOrder key n m (swap h p m) := by
  have atM : swap h p m m = h p := by rw [swap_apply,Equiv.swap_apply_right]
  have atP : swap h p m p = h m := by rw [swap_apply,Equiv.swap_apply_left]
  have other : ∀ k,k ≠ p → k ≠ m → swap h p m k = h k := fun k low high => by
    rw [swap_apply,Equiv.swap_apply_of_ne_of_ne low high]
  constructor
  · intro i some'' below apart
    by_cases here : i = m
    · rw [here,child,atM,atP]
      exact small.le
    by_cases top : i = p
    · rw [top,other ((p-1)/2) (by omega) (by omega),atP]
      exact order.grand (by omega) m some' inside child
    rw [other i top here]
    by_cases sibling : (i-1)/2 = p
    · rw [sibling,atP]
      exact least i some'' below sibling
    · rw [other _ sibling apart]
      exact order.apart i some'' below sibling
  · intro _ i some'' below grandchild
    rw [child,atP,other i (by omega) (by omega)]
    have held := order.apart i some'' below (by omega)
    rwa [grandchild] at held

theorem siftDown_heap (fuel : Nat) : ∀ (p : Nat) (h : Nat → α),DownOrder key n p h → n ≤ p+fuel → IsHeap key n (siftDown key n fuel p h) := by
  induction fuel with
  | zero => exact fun p h order enough i some' below => order.apart i some' below (by omega)
  | succ fuel ih =>
    intro p h order enough
    obtain ⟨moved,least⟩ := leastChild_spec key n p h
    rw [siftDown]
    by_cases settled : leastChild key n p h = p
    · rw [if_pos settled]
      intro i some' below
      by_cases child : (i-1)/2 = p
      · have held := least i some' below child
        rwa [settled,← child] at held
      · exact order.apart i some' below child
    · rw [if_neg settled]
      obtain ⟨some',child,inside,small⟩ := moved.resolve_left settled
      exact ih _ _ (order.swapped some' child inside small least) (by omega)

theorem siftDown_shuffled (fuel : Nat) : ∀ (p : Nat) (h : Nat → α),p < n → Shuffled n h (siftDown key n fuel p h) := by
  induction fuel with
  | zero => exact fun p h _ => shuffled_refl n h
  | succ fuel ih =>
    intro p h inside
    rw [siftDown]
    by_cases settled : leastChild key n p h = p
    · rw [if_pos settled]
      exact shuffled_refl n h
    · rw [if_neg settled]
      obtain ⟨_,_,below,_⟩ := (leastChild_spec key n p h).1.resolve_left settled
      exact (shuffled_swap inside below h).trans (ih _ _ below)

theorem IsHeap.root (heap : IsHeap key n h) {i : Nat} (below : i < n) : key (h 0) ≤ key (h i) := by
  induction i using Nat.strong_induction_on with
  | _ i ih =>
    by_cases root : i = 0
    · rw [root]
    · exact (ih ((i-1)/2) (by omega) (by omega)).trans (heap i (by omega) below)

theorem push_heap {c : Nat} {h h' : Nat → α} (heap : IsHeap key c h) (same : ∀ k < c,h' k = h k) :
    IsHeap key (c+1) (siftUp key c c h') := by
  refine siftUp_heap c c h' ⟨fun i some' below apart => ?_,fun _ i _ below child => by omega⟩ (Nat.lt_succ_self c) le_rfl
  rw [same i (by omega),same _ (by omega)]
  exact heap i some' (by omega)

theorem replace_heap {h h' : Nat → α} (heap : IsHeap key n h) (same : ∀ k,0 < k → h' k = h k) : IsHeap key n (siftDown key n n 0 h') := by
  refine siftDown_heap n 0 h' ⟨fun i some' below apart => ?_,fun root => absurd root (lt_irrefl 0)⟩ (Nat.le_add_left _ _)
  rw [same i some',same _ (by omega)]
  exact heap i some' below

end Sifts

section Front
variable [LinearOrder K]

theorem sorted_front {top rest all front whole : List K} (parts : (top++rest).Perm all) (above : ∀ x ∈ top,∀ y ∈ rest,y ≤ x)
    (perm : front.Perm top) (sorted : front.Pairwise (· ≥ ·)) (perm' : whole.Perm all) (sorted' : whole.Pairwise (· ≥ ·)) :
    front = whole.take top.length := by
  have tail := List.mergeSort_perm rest (fun a b => decide (a ≥ b))
  have ordered : (rest.mergeSort fun a b => decide (a ≥ b)).Pairwise (· ≥ ·) := List.pairwise_mergeSort' (· ≥ ·) rest
  have joined : (front++rest.mergeSort fun a b => decide (a ≥ b)).Pairwise (· ≥ ·) :=
    List.pairwise_append.mpr ⟨sorted,ordered,fun x inTop y inRest => above x (perm.mem_iff.mp inTop) y (tail.mem_iff.mp inRest)⟩
  have same : (front++rest.mergeSort fun a b => decide (a ≥ b)) = whole :=
    ((perm.append tail).trans (parts.trans perm'.symm)).eq_of_pairwise' joined sorted'
  rw [← same,← perm.length_eq,List.take_left]

end Front

end TinyLlama.Heap
