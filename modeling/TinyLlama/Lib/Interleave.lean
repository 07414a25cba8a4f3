import Mathlib

-- Threads on one memory, each writing only cells of its own.
namespace TinyLlama.Interleave
variable {τ κ α : Type}

abbrev Step (κ α : Type) := (κ → α) → κ → α

def exec (steps : List (Step κ α)) (m : κ → α) : κ → α := steps.foldl (fun m step => step m) m

theorem exec_append (a b : List (Step κ α)) (m : κ → α) : exec (a++b) m = exec b (exec a m) := List.foldl_append

structure Confined (own shared : Set κ) (step : Step κ α) : Prop where
  frame : ∀ m c,c ∉ own → step m c = m c
  reads : ∀ m m',(∀ c ∈ own ∪ shared,m c = m' c) → ∀ c ∈ own,step m c = step m' c

def turns [DecidableEq τ] (t : τ) (run : List (τ × Step κ α)) : List (Step κ α) :=
  (run.filter fun x => x.1 = t).map Prod.snd

section Alone
variable [DecidableEq τ] {own : τ → Set κ} {shared : Set κ}

-- By induction on the run, from two memories that the thread cannot tell apart.
theorem alone {run : List (τ × Step κ α)} {t : τ} (apart : ∀ x ∈ run,x.1 ≠ t → Disjoint (own x.1) (own t ∪ shared))
    (confined : ∀ x ∈ run,Confined (own x.1) shared x.2) {m m' : κ → α} (same : ∀ c ∈ own t ∪ shared,m c = m' c) :
    ∀ c ∈ own t ∪ shared,exec (run.map Prod.snd) m c = exec (turns t run) m' c := by
  induction run generalizing m m' with
  | nil => exact same
  | cons x rest ih =>
    have here := confined x List.mem_cons_self
    have ih : ∀ m m' : κ → α,(∀ c ∈ own t ∪ shared,m c = m' c) →
        ∀ c ∈ own t ∪ shared,exec (rest.map Prod.snd) m c = exec (turns t rest) m' c := fun m m' same =>
      ih (fun y listed => apart y (List.mem_cons_of_mem x listed)) (fun y listed => confined y (List.mem_cons_of_mem x listed)) same
    by_cases turn : x.1 = t
    · have mine : turns t (x :: rest) = x.2 :: turns t rest := by
        simp [turns,turn]
      rw [mine]
      refine ih _ _ fun c visible => ?_
      rw [← turn] at same visible
      by_cases owned : c ∈ own x.1
      · exact here.reads m m' same c owned
      · exact (here.frame m c owned).trans ((same c visible).trans (here.frame m' c owned).symm)
    · have others : turns t (x :: rest) = turns t rest := by
        simp [turns,turn]
      rw [others]
      refine ih _ _ fun c visible => ?_
      have foreign : c ∉ own x.1 := Set.disjoint_right.mp (apart x List.mem_cons_self turn) visible
      exact (here.frame m c foreign).trans (same c visible)

end Alone

section Pools

-- A loop over n indices on a pool: every index is claimed by one thread, which runs its
-- indices one after another; the threads' steps come in any order.
structure Dispatch (nthreads n : Nat) (work : Nat → Nat → List (Step κ α)) (claims : Nat → List Nat)
    (order : List (Nat × Step κ α)) : Prop where
  once : ((List.range nthreads).flatMap claims).Perm (List.range n)
  threads : ∀ x ∈ order,x.1 < nthreads
  steps : ∀ tid < nthreads,turns tid order = (claims tid).flatMap (work tid)

structure Pool (κ α : Type) where
  nthreads : Nat
  run : Nat → (Nat → Nat → List (Step κ α)) → (κ → α) → κ → α
  once : ∀ n work m,∃ claims order,Dispatch nthreads n work claims order ∧ run n work m = exec (order.map Prod.snd) m

variable {nthreads n : Nat} {work : Nat → Nat → List (Step κ α)} {claims : Nat → List Nat} {order : List (Nat × Step κ α)}

theorem Dispatch.claimed (dispatch : Dispatch nthreads n work claims order) {i : Nat} (below : i < n) :
    ∃ tid < nthreads,i ∈ claims tid := by
  obtain ⟨tid,inside,listed⟩ := List.mem_flatMap.mp (dispatch.once.mem_iff.mpr (List.mem_range.mpr below))
  exact ⟨tid,List.mem_range.mp inside,listed⟩

theorem Dispatch.below (dispatch : Dispatch nthreads n work claims order) {tid i : Nat} (thread : tid < nthreads)
    (listed : i ∈ claims tid) : i < n :=
  List.mem_range.mp (dispatch.once.mem_iff.mp (List.mem_flatMap.mpr ⟨tid,List.mem_range.mpr thread,listed⟩))

theorem Dispatch.nodup (dispatch : Dispatch nthreads n work claims order) :
    (∀ tid < nthreads,(claims tid).Nodup) ∧
      ∀ tid < nthreads,∀ tid' < nthreads,tid ≠ tid' → List.Disjoint (claims tid) (claims tid') := by
  obtain ⟨each,apart⟩ := List.nodup_flatMap.mp (dispatch.once.nodup_iff.mpr List.nodup_range)
  refine ⟨fun tid below => each tid (List.mem_range.mpr below),fun tid below tid' below' other => ?_⟩
  have symmetric : Std.Symm (Function.onFun List.Disjoint claims) := ⟨fun _ _ disjoint => disjoint.symm⟩
  exact apart.forall (List.mem_range.mpr below) (List.mem_range.mpr below') other

theorem Dispatch.alone (dispatch : Dispatch nthreads n work claims order) (own : Nat → Set κ) (shared : Set κ)
    (apart : ∀ t < nthreads,∀ t' < nthreads,t ≠ t' → Disjoint (own t) (own t' ∪ shared))
    (confined : ∀ tid < nthreads,∀ i ∈ claims tid,∀ step ∈ work tid i,Confined (own tid) shared step) {tid : Nat}
    (thread : tid < nthreads) (m : κ → α) {c : κ} (visible : c ∈ own tid ∪ shared) :
    exec (order.map Prod.snd) m c = exec ((claims tid).flatMap (work tid)) m c := by
  rw [← dispatch.steps tid thread]
  refine Interleave.alone (fun x listed other => apart x.1 (dispatch.threads x listed) tid thread other) (fun x listed => ?_)
    (fun _ _ => rfl) c visible
  have below := dispatch.threads x listed
  have mine : x.2 ∈ turns x.1 order := List.mem_map.mpr ⟨x,List.mem_filter.mpr ⟨listed,decide_eq_true rfl⟩,rfl⟩
  rw [dispatch.steps x.1 below] at mine
  obtain ⟨i,claimed,step⟩ := List.mem_flatMap.mp mine
  exact confined x.1 below i claimed x.2 step

end Pools

section Puts

-- One step that writes some cells, each with its value in the memory before.
def puts [DecidableEq κ] (f : κ → (κ → α) → α) (cells : List κ) : Step κ α := fun m c => if c ∈ cells then f c m else m c

variable [DecidableEq κ] {f : κ → (κ → α) → α}

theorem puts_confined {own shared : Set κ} {cells : List κ} (inside : ∀ c ∈ cells,c ∈ own)
    (reads : ∀ c ∈ cells,∀ m m',(∀ c ∈ own ∪ shared,m c = m' c) → f c m = f c m') : Confined own shared (puts f cells) := by
  refine ⟨fun m c foreign => if_neg fun listed => foreign (inside c listed),fun m m' same c owned => ?_⟩
  unfold puts
  split
  · next listed => exact reads c listed m m' same
  · exact same c (Or.inl owned)

theorem update_puts {c : κ} {value : (κ → α) → α} (same : ∀ m,value m = f c m) :
    (fun m => Function.update m c (value m)) = puts f [c] := by
  funext m c'
  rw [Function.update_apply,puts]
  by_cases here : c' = c
  · subst here
    rw [if_pos rfl,if_pos List.mem_cons_self,same]
  · rw [if_neg here,if_neg fun listed => here (List.mem_singleton.mp listed)]

theorem stores_puts {β : Type} (cell : β → κ) (value : β → (κ → α) → α) {l : List β}
    (same : ∀ b ∈ l,∀ m,value b m = f (cell b) m) (m : κ → α) :
    l.foldl (fun m' b => Function.update m' (cell b) (value b m)) m = puts f (l.map cell) m := by
  induction l using List.reverseRecOn with
  | nil => rfl
  | append_singleton front b ih =>
    rw [List.foldl_append,ih fun b listed => same b (List.mem_append_left _ listed)]
    funext c
    change Function.update (puts f (front.map cell) m) (cell b) (value b m) c = _
    rw [Function.update_apply,same b (by simp)]
    unfold puts
    by_cases here : c = cell b
    · subst here
      rw [if_pos rfl,if_pos (by simp)]
    · rw [if_neg here]
      refine if_congr ?_ rfl rfl
      simp [here]

theorem exec_puts (written : Set κ) {pieces : List (List κ)} (inside : ∀ cells ∈ pieces,∀ c ∈ cells,c ∈ written)
    (reads : ∀ c m m',(∀ c,c ∉ written → m c = m' c) → f c m = f c m') (m : κ → α) (c : κ) :
    exec (pieces.map (puts f)) m c = if c ∈ pieces.flatten then f c m else m c := by
  induction pieces generalizing m with
  | nil => rfl
  | cons cells rest ih =>
    change exec (rest.map (puts f)) (puts f cells m) c = _
    have first : ∀ c,f c (puts f cells m) = f c m := fun c =>
      reads c _ _ fun c other => if_neg fun listed => other (inside cells List.mem_cons_self c listed)
    rw [ih (fun cells' listed => inside cells' (List.mem_cons_of_mem _ listed)),first,List.flatten_cons]
    by_cases later : c ∈ rest.flatten
    · rw [if_pos later,if_pos (List.mem_append_right _ later)]
    · rw [if_neg later,puts]
      refine if_congr ?_ rfl rfl
      rw [List.mem_append]
      exact (or_iff_left later).symm

end Puts

end TinyLlama.Interleave
