import Mathlib.Tactic

namespace TinyLlama.Sweep

section Splice
variable {α : Type}

def splice (out : Nat → α) (base len : Nat) (g : Nat → α) : Nat → α :=
  fun k => if base ≤ k ∧ k < base+len then g (k-base) else out k

theorem splice_none (out : Nat → α) (base : Nat) (g : Nat → α) : splice out base 0 g = out := by
  funext k
  unfold splice
  rw [if_neg]
  omega

theorem splice_congr {out : Nat → α} {base len : Nat} {g g' : Nat → α} (same : ∀ k < len,g k = g' k) :
    splice out base len g = splice out base len g' := by
  funext k
  unfold splice
  split
  · next inside => exact same (k-base) (by omega)
  · rfl

theorem splice_self (out : Nat → α) (base len : Nat) : splice out base len (fun i => out (base+i)) = out := by
  funext k
  unfold splice
  split
  · next inside => exact congrArg out (Nat.add_sub_cancel' inside.1)
  · rfl

theorem splice_splice (out : Nat → α) (base len : Nat) (g g' : Nat → α) :
    splice (splice out base len g) base len g' = splice out base len g' := by
  funext k
  unfold splice
  split <;> rfl

theorem splice_append (out : Nat → α) (base a b : Nat) (g : Nat → α) :
    splice (splice out base a g) (base+a) b (fun k => g (a+k)) = splice out base (a+b) g := by
  funext k
  unfold splice
  by_cases later : base+a ≤ k ∧ k < base+a+b
  · have place : a+(k-(base+a)) = k-base := by omega
    rw [if_pos later,if_pos (by omega)]
    exact congrArg g place
  · rw [if_neg later]
    by_cases first : base ≤ k ∧ k < base+a
    · rw [if_pos first,if_pos (by omega)]
    · rw [if_neg first,if_neg (by omega)]

-- Rounds that each write the piece between two cuts have written all of it.
theorem fold_splice_cuts {n : Nat} {b : Nat → (Nat → α) → Nat → α} {c : Nat → Nat} {g : Nat → α}
    (ordered : ∀ t < n,c t ≤ c (t+1))
    (piece : ∀ t < n,∀ out,b t out = splice out (c t) (c (t+1)-c t) (fun k => g (c t+k)))
    (out : Nat → α) :
    c 0 ≤ c n ∧
      n.fold (fun t _ out => b t out) out = splice out (c 0) (c n-c 0) (fun k => g (c 0+k)) := by
  induction n with
  | zero => exact ⟨Nat.le_refl _,by rw [Nat.fold_zero,Nat.sub_self,splice_none]⟩
  | succ n ih =>
    obtain ⟨low,done⟩ := ih (fun t below => ordered t (below.trans n.lt_succ_self))
      (fun t below => piece t (below.trans n.lt_succ_self))
    have up := ordered n n.lt_succ_self
    refine ⟨low.trans up,?_⟩
    rw [Nat.fold_succ,done,piece n n.lt_succ_self,show c (n+1)-c 0 = (c n-c 0)+(c (n+1)-c n) by omega,
      ← splice_append,Nat.add_sub_cancel' low]
    congr 1
    funext k
    congr 1
    omega

theorem fold_splice {n base w len : Nat} {b : Nat → (Nat → α) → Nat → α} {g : Nat → α} (whole : len = n*w)
    (piece : ∀ t < n,∀ out,b t out = splice out (base+t*w) w (fun k => g (t*w+k))) (out : Nat → α) :
    n.fold (fun t _ out => b t out) out = splice out base len g := by
  subst whole
  have all := (fold_splice_cuts (c:=fun t => base+t*w) (g:=fun k => g (k-base)) (b:=b) (n:=n)
    (fun t _ => by rw [Nat.succ_mul]; omega)
    (fun t below out => by
      rw [piece t below,Nat.succ_mul,show base+(t*w+w)-(base+t*w) = w by omega]
      refine splice_congr fun k _ => ?_
      congr 1
      omega) out).2
  simpa using all

end Splice

theorem fold_congr {σ : Type} {n : Nat} {f g : Nat → σ → σ} (same : ∀ t < n,∀ s,f t s = g t s) (s : σ) :
    n.fold (fun t _ s => f t s) s = n.fold (fun t _ s => g t s) s := by
  induction n with
  | zero => rfl
  | succ n ih =>
    rw [Nat.fold_succ,Nat.fold_succ,ih fun t below => same t (below.trans n.lt_succ_self),same n n.lt_succ_self]

theorem fold_nest {σ : Type} (n w : Nat) (f : Nat → Nat → σ → σ) (s : σ) :
    n.fold (fun h _ s => w.fold (fun d _ s => f h d s) s) s = (n*w).fold (fun i _ s => f (i/w) (i%w) s) s := by
  induction n with
  | zero => rw [Nat.zero_mul]; rfl
  | succ n ih =>
    have row : ∀ k ≤ w,(n*w+k).fold (fun i _ s => f (i/w) (i%w) s) s =
        k.fold (fun d _ s => f n d s) ((n*w).fold (fun i _ s => f (i/w) (i%w) s) s) := by
      intro k
      induction k with
      | zero => exact fun _ => rfl
      | succ k ih =>
        intro up
        have wide : 0 < w := by omega
        have place : (n*w+k)/w = n ∧ (n*w+k)%w = k := by
          rw [Nat.add_comm,Nat.add_mul_div_right _ _ wide,Nat.add_mul_mod_self_right,Nat.div_eq_of_lt (by omega),
            Nat.mod_eq_of_lt (by omega),Nat.zero_add]
          exact ⟨rfl,rfl⟩
        rw [← Nat.add_assoc,Nat.fold_succ,ih (by omega),Nat.fold_succ,place.1,place.2]
    rw [Nat.fold_succ,ih,Nat.succ_mul,row w le_rfl]

section Places
variable {α : Type}

theorem fold_modify (n : Nat) (f : Nat → α → α) (out : Nat → α) (k : Nat) :
    n.fold (fun i _ out => Function.update out i (f i (out i))) out k = if k < n then f k (out k) else out k := by
  induction n generalizing k with
  | zero => rfl
  | succ n ih =>
    rw [Nat.fold_succ,Function.update_apply]
    by_cases last : k = n
    · rw [if_pos last,if_pos (by omega),ih,if_neg (by omega),last]
    · rw [if_neg last,ih]
      by_cases below : k < n
      · rw [if_pos below,if_pos (by omega)]
      · rw [if_neg below,if_neg (by omega)]

theorem fold_update (n : Nat) (f : Nat → α) (out : Nat → α) (k : Nat) :
    n.fold (fun i _ out => Function.update out i (f i)) out k = if k < n then f k else out k :=
  fold_modify n (fun i _ => f i) out k

theorem fold_modify_from (n base : Nat) (f : Nat → α → α) (out : Nat → α) :
    n.fold (fun i _ out => Function.update out (base+i) (f i (out (base+i)))) out = splice out base n fun i => f i (out (base+i)) := by
  induction n with
  | zero => rw [Nat.fold_zero,splice_none]
  | succ n ih =>
    rw [Nat.fold_succ,ih]
    funext k
    have fresh : splice out base n (fun i => f i (out (base+i))) (base+n) = out (base+n) := by
      rw [splice,if_neg (by omega)]
    rw [Function.update_apply,fresh]
    unfold splice
    by_cases last : k = base+n
    · rw [if_pos last,if_pos (by omega),last,Nat.add_sub_cancel_left]
    · rw [if_neg last]
      refine if_congr ?_ rfl rfl
      omega

theorem fold_update_from (n base : Nat) (f : Nat → α) (out : Nat → α) :
    n.fold (fun i _ out => Function.update out (base+i) (f i)) out = splice out base n f := by
  induction n with
  | zero => rw [Nat.fold_zero,splice_none]
  | succ n ih =>
    rw [Nat.fold_succ,ih]
    funext k
    rw [Function.update_apply]
    unfold splice
    by_cases last : k = base+n
    · rw [if_pos last,if_pos (by omega),last,Nat.add_sub_cancel_left]
    · rw [if_neg last]
      refine if_congr ?_ rfl rfl
      omega

theorem row_inside {w i i' j : Nat} (small : j < w) : i'*w ≤ i*w+j ∧ i*w+j < i'*w+w ↔ i' = i := by
  constructor
  · rintro ⟨low,high⟩
    have up : i' < i+1 := by
      by_contra beyond
      have grown := Nat.mul_le_mul_right w (not_lt.mp beyond)
      rw [Nat.succ_mul] at grown
      omega
    have down : i < i'+1 := by
      by_contra beyond
      have grown := Nat.mul_le_mul_right w (not_lt.mp beyond)
      rw [Nat.succ_mul] at grown
      omega
    omega
  · rintro rfl
    omega

theorem row_inj {w i i' j j' : Nat} (small : j < w) (small' : j' < w) (same : i*w+j = i'*w+j') : i = i' ∧ j = j' := by
  have row : i' = i := (row_inside small).mp (by omega)
  subst row
  exact ⟨rfl,by omega⟩

end Places

section Total
variable {M : Type} [AddCommMonoid M] {σ : Type}

theorem fold_total {n : Nat} {b : Nat → σ → σ} {m : σ → M} {d : Nat → M}
    (round : ∀ t < n,∀ s,m (b t s) = m s+d t) (s : σ) :
    m (n.fold (fun t _ s => b t s) s) = m s+∑ t ∈ Finset.range n,d t := by
  induction n with
  | zero => simp
  | succ n ih =>
    rw [Nat.fold_succ,round n n.lt_succ_self,ih fun t below => round t (below.trans n.lt_succ_self),
      Finset.sum_range_succ,add_assoc]

theorem fold_pair {τ : Type} (n : Nat) (f : Nat → σ → σ) (g : Nat → τ → τ) (a : σ) (b : τ) :
    n.fold (fun t _ s => (f t s.1,g t s.2)) (a,b) = (n.fold (fun t _ s => f t s) a,n.fold (fun t _ s => g t s) b) := by
  induction n with
  | zero => rfl
  | succ n ih => rw [Nat.fold_succ,ih,Nat.fold_succ,Nat.fold_succ]

theorem sum_cuts {n : Nat} {c : Nat → Nat} (ordered : ∀ t < n,c t ≤ c (t+1)) (f : Nat → M) :
    c 0 ≤ c n ∧
      ∑ t ∈ Finset.range n,∑ k ∈ Finset.range (c (t+1)-c t),f (c t+k) =
        ∑ k ∈ Finset.range (c n-c 0),f (c 0+k) := by
  induction n with
  | zero => simp
  | succ n ih =>
    obtain ⟨low,done⟩ := ih fun t below => ordered t (below.trans n.lt_succ_self)
    have up := ordered n n.lt_succ_self
    refine ⟨low.trans up,?_⟩
    rw [Finset.sum_range_succ,done,show c (n+1)-c 0 = (c n-c 0)+(c (n+1)-c n) by omega,
      Finset.sum_range_add]
    congr 1
    refine Finset.sum_congr rfl fun k _ => ?_
    congr 1
    omega

theorem sum_stride (n w : Nat) (f : Nat → M) :
    ∑ t ∈ Finset.range n,∑ k ∈ Finset.range w,f (t*w+k) = ∑ k ∈ Finset.range (n*w),f k := by
  have all := (sum_cuts (n:=n) (c:=fun t => t*w) (fun t _ => by rw [Nat.succ_mul]; omega) f).2
  simpa [Nat.succ_mul] using all

end Total

section Borders

-- A range of n places from i on, cut at the multiples of a width: the number of
-- blocks it meets, and where in the range each cut lies.
def blockCount (w i n : Nat) : Nat := (i+n+w-1)/w-i/w

def blockCut (w i n t : Nat) : Nat := min (i+n) (max i ((i/w+t)*w))-i

variable {w i n : Nat}

theorem blockCut_zero : blockCut w i n 0 = 0 := by
  have low := Nat.div_mul_le_self i w
  simp only [blockCut,Nat.add_zero]
  omega

theorem blockCut_count (wide : 0 < w) : blockCut w i n (blockCount w i n) = n := by
  have split := Nat.div_add_mod (i+n+w-1) w
  have small := Nat.mod_lt (i+n+w-1) wide
  have ordered : i/w ≤ (i+n+w-1)/w := Nat.div_le_div_right (by omega)
  have blocks : i/w+blockCount w i n = (i+n+w-1)/w := Nat.add_sub_cancel' ordered
  rw [blockCut,blocks,Nat.mul_comm]
  omega

theorem blockCut_ordered (t : Nat) : blockCut w i n t ≤ blockCut w i n (t+1) := by
  have step : (i/w+(t+1))*w = (i/w+t)*w+w := by ring
  simp only [blockCut,step]
  omega

theorem block_meets {t : Nat} (wide : 0 < w) (below : t < blockCount w i n) :
    (i/w+t)*w < i+n ∧ i < (i/w+t)*w+w := by
  have split := Nat.div_add_mod i w
  have small := Nat.mod_lt i wide
  have grown : i/w*w ≤ (i/w+t)*w := Nat.mul_le_mul_right _ (Nat.le_add_right _ _)
  have strict : i/w+t+1 ≤ (i+n+w-1)/w := by
    unfold blockCount at below
    omega
  have full := (Nat.le_div_iff_mul_le wide).mp strict
  rw [Nat.succ_mul] at full
  rw [Nat.mul_comm] at split
  omega

theorem blockCut_low {t : Nat} (wide : 0 < w) (below : t < blockCount w i n) :
    i+blockCut w i n t = if i > (i/w+t)*w then i else (i/w+t)*w := by
  have meets := block_meets wide below
  unfold blockCut
  split <;> omega

theorem blockCut_high {t : Nat} (wide : 0 < w) (below : t < blockCount w i n) :
    i+blockCut w i n (t+1) = if i+n < (i/w+t)*w+w then i+n else (i/w+t)*w+w := by
  have meets := block_meets wide below
  have step : (i/w+(t+1))*w = (i/w+t)*w+w := by ring
  simp only [blockCut,step]
  split <;> omega

end Borders

end TinyLlama.Sweep
