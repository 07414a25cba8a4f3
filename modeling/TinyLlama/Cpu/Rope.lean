import TinyLlama.Graph.Build
import TinyLlama.Lib.Cells
import TinyLlama.Lib.Turns
import Mathlib.Analysis.SpecialFunctions.Pow.Real
import Mathlib.Analysis.SpecialFunctions.Trigonometric.Bounds

-- backend/cpu/cpu_op.c: the rotary operators. The arithmetic is exact; cos, sin and pow are parameters.
namespace TinyLlama.Cpu
open Sweep Turns TinyLlama.Graph

structure Trig (K : Type) where
  cos : K → K
  sin : K → K
  pow : K → K → K

structure RopeShape where
  heads : Nat
  hdim : Nat
  rdim : Nat
deriving Repr,DecidableEq

structure RopeCall (K : Type) where
  theta : K
  pos : Nat
  base : Nat
  r : Nat
  src : Nat → K
  dst : Nat → K

abbrev Pairing := Nat → Nat × Nat

def neoxPair (ropeDim : Nat) : Pairing := fun i => (i,i+ropeDim/2)

def normPair : Pairing := fun i => (2*i,2*i+1)

section Operators
variable {K : Type} [Field K] (t : Trig K)

-- pos * 1/theta^(2i/ropeDim), of pair i.
def ropeAngle (theta : K) (ropeDim pos i : Nat) : K := pos*(1/t.pow theta ((2*i : Nat)/ropeDim))

def turnBy (angle : K) (m : Nat → K) (a b : Nat) : Nat → K := turnPair (rotate (t.cos angle) (t.sin angle)) m a b

def rotateHeads (pair : Pairing) (pairs : Nat) (angle : Nat → K) (s : RopeShape) (dp : Nat) (m : Nat → K) : Nat → K :=
  s.heads.fold (fun h _ m =>
    let bh := dp+h*s.hdim
    pairs.fold (fun i _ m => turnBy t (angle i) m (bh+(pair i).1) (bh+(pair i).2)) m) m

def ropePartial (s : RopeShape) (pos : Nat) (theta : K) (dp : Nat) (m : Nat → K) : Nat → K :=
  rotateHeads t (neoxPair s.rdim) (s.rdim/2) (ropeAngle t theta s.rdim pos) s dp m

-- for (i = 0; i < rdim; i += 2): the pairs of a head.
def ropeNorm (s : RopeShape) (pos : Nat) (theta : K) (dp : Nat) (m : Nat → K) : Nat → K :=
  rotateHeads t normPair ((s.rdim+1)/2) (ropeAngle t theta s.rdim pos) s dp m

def ropeRow (call : RopeCall K) (od p j : Nat) : K := call.src (u32 (call.base+p)*od+j)

def ropePos (call : RopeCall K) (p : Nat) : Nat := u32 (call.pos+call.base+p)

-- Every row is copied, then its heads are rotated in place.
def opRope (rotateRow : Nat → K → Nat → (Nat → K) → Nat → K) (od : Nat) (call : RopeCall K) : Nat → K :=
  call.r.fold (fun p _ dst => rotateRow (ropePos call p) call.theta (p*od) (splice dst (p*od) od (ropeRow call od p))) call.dst

def opRopeNeox (s : RopeShape) (od : Nat) (call : RopeCall K) : Option (Nat → K) := some (opRope (ropePartial t s) od call)

-- With rdim 2^32-1 the 32-bit index goes from 2^32-2 to 0, and the loop does not end.
def opRopeNorm (s : RopeShape) (od : Nat) (call : RopeCall K) : Option (Nat → K) :=
  if call.r ≠ 0 ∧ s.heads ≠ 0 ∧ s.rdim = 2^32-1 then none else some (opRope (ropeNorm t s) od call)

-- The pairs lie in the first rdim entries of a head, no two share an entry.
structure InSpan (pair : Pairing) (rdim : Nat) : Prop where
  inside : ∀ i < rdim/2,(pair i).1 < rdim ∧ (pair i).2 < rdim
  apart : PairsApart (fun i => (pair i).1) (fun i => (pair i).2) (rdim/2)

-- Row y is row x with the pairs of every head rotated, and nothing else changed.
structure RowRotated (pair : Pairing) (angle : Nat → K) (s : RopeShape) (od : Nat) (x y : Nat → K) : Prop where
  turned : ∀ h < s.heads,∀ i < s.rdim/2,(y (h*s.hdim+(pair i).1),y (h*s.hdim+(pair i).2)) =
    rotate (t.cos (angle i)) (t.sin (angle i)) (x (h*s.hdim+(pair i).1)) (x (h*s.hdim+(pair i).2))
  squares : ∀ h < s.heads,∀ i < s.rdim/2,
    y (h*s.hdim+(pair i).1)*y (h*s.hdim+(pair i).1)+y (h*s.hdim+(pair i).2)*y (h*s.hdim+(pair i).2) =
      x (h*s.hdim+(pair i).1)*x (h*s.hdim+(pair i).1)+x (h*s.hdim+(pair i).2)*x (h*s.hdim+(pair i).2)
  rest : ∀ j < od,(∀ h < s.heads,∀ i < s.rdim/2,j ≠ h*s.hdim+(pair i).1 ∧ j ≠ h*s.hdim+(pair i).2) → y j = x j

-- An operator rotates the spans of the rows that it is called on. Behind them its output
-- is as before.
structure TouchesSpans (pair : Pairing) (op : RopeShape → Nat → RopeCall K → Option (Nat → K)) (s : RopeShape) (od : Nat) : Prop where
  pairs : InSpan pair s.rdim
  rows : ∀ call,∃ out,op s od call = some out ∧
    (∀ p < call.r,RowRotated t pair (ropeAngle t call.theta s.rdim (ropePos call p)) s od (ropeRow call od p) fun j => out (p*od+j)) ∧
    ∀ q,call.r*od ≤ q → out q = call.dst q

end Operators

theorem neoxPair_inSpan (rdim : Nat) : InSpan (neoxPair rdim) rdim := by
  refine ⟨fun i below => ?_,fun i below => ?_,fun i below j below' other => ?_⟩
  all_goals
    dsimp only [neoxPair]
    omega

theorem normPair_inSpan (rdim : Nat) : InSpan normPair rdim := by
  refine ⟨fun i below => ?_,fun i below => ?_,fun i below j below' other => ?_⟩
  all_goals
    dsimp only [normPair]
    omega

theorem ropeNode_checks {op : GraphOp} (built : ropeNode op src theta nHeads headDim ropeDim g = some r) :
    headDim ≠ 0 ∧ ropeDim ≠ 0 ∧ ropeDim ≤ headDim := by
  unfold ropeNode at built
  by_contra refused
  have none' : (require (decide (headDim ≠ 0 ∧ ropeDim ≠ 0 ∧ ropeDim ≤ headDim)) : Build Unit) g = none := by
    rw [require,decide_eq_false refused]
    rfl
  change ((require (decide (headDim ≠ 0 ∧ ropeDim ≠ 0 ∧ ropeDim ≤ headDim)) : Build Unit) g).bind _ = some r at built
  rw [none'] at built
  cases built

section Heads
variable {K : Type} [Field K] (t : Trig K) {pair : Pairing} {s : RopeShape}

def headPair (s : RopeShape) (dp h offset : Nat) : Nat := dp+h*s.hdim+offset

theorem some_pairs {heads pairs k : Nat} (below : k < heads*pairs) : 0 < pairs :=
  Nat.pos_of_ne_zero fun none' => by simp [none'] at below

theorem heads_apart (span : InSpan pair s.rdim) (within : s.rdim ≤ s.hdim) (dp : Nat) :
    PairsApart (fun k => headPair s dp (k/(s.rdim/2)) (pair (k%(s.rdim/2))).1)
      (fun k => headPair s dp (k/(s.rdim/2)) (pair (k%(s.rdim/2))).2) (s.heads*(s.rdim/2)) := by
  obtain ⟨inside,own,others⟩ := span
  have column : ∀ k < s.heads*(s.rdim/2),k%(s.rdim/2) < s.rdim/2 := fun k below => Nat.mod_lt _ (some_pairs below)
  have small : ∀ i < s.rdim/2,(pair i).1 < s.hdim ∧ (pair i).2 < s.hdim := fun i below =>
    ⟨(inside i below).1.trans_le within,(inside i below).2.trans_le within⟩
  refine ⟨fun k below => ?_,fun k below k' below' other => ?_⟩
  · have apart := own _ (column k below)
    dsimp only [headPair] at apart ⊢
    omega
  · have i := column k below
    have i' := column k' below'
    -- two offsets of different heads, or of different pairs of one head
    have different : ∀ u u',u < s.hdim → u' < s.hdim → (k%(s.rdim/2) ≠ k'%(s.rdim/2) → u ≠ u') →
        headPair s dp (k/(s.rdim/2)) u ≠ headPair s dp (k'/(s.rdim/2)) u' := by
      intro u u' low low' apart same
      have entry : k/(s.rdim/2)*s.hdim+u = k'/(s.rdim/2)*s.hdim+u' := by
        unfold headPair at same
        omega
      obtain ⟨head,offset⟩ := row_inj low low' entry
      refine apart (fun column => other ?_) offset
      rw [← Nat.div_add_mod k (s.rdim/2),← Nat.div_add_mod k' (s.rdim/2),head,column]
    refine ⟨different _ _ (small _ i).1 (small _ i').1 fun ne => (others _ i _ i' ne).1,
      different _ _ (small _ i).1 (small _ i').2 fun ne => (others _ i _ i' ne).2.1,
      different _ _ (small _ i).2 (small _ i').2 fun ne => (others _ i _ i' ne).2.2⟩

theorem rotateHeads_turned (span : InSpan pair s.rdim) (within : s.rdim ≤ s.hdim) (angle : Nat → K) (dp : Nat) (m : Nat → K) :
    (∀ h < s.heads,∀ i < s.rdim/2,
      (rotateHeads t pair (s.rdim/2) angle s dp m (headPair s dp h (pair i).1),
        rotateHeads t pair (s.rdim/2) angle s dp m (headPair s dp h (pair i).2)) =
      rotate (t.cos (angle i)) (t.sin (angle i)) (m (headPair s dp h (pair i).1)) (m (headPair s dp h (pair i).2))) ∧
    ∀ q,(∀ h < s.heads,∀ i < s.rdim/2,q ≠ headPair s dp h (pair i).1 ∧ q ≠ headPair s dp h (pair i).2) →
      rotateHeads t pair (s.rdim/2) angle s dp m q = m q := by
  have flat : rotateHeads t pair (s.rdim/2) angle s dp m = _ :=
    fold_nest s.heads (s.rdim/2) (fun h i m => turnBy t (angle i) m (headPair s dp h (pair i).1) (headPair s dp h (pair i).2)) m
  have turned := fold_turned (f:=fun k => rotate (t.cos (angle (k%(s.rdim/2)))) (t.sin (angle (k%(s.rdim/2)))))
    (heads_apart span within dp) m
  rw [flat]
  refine ⟨fun h head i below => ?_,fun q free => ?_⟩
  · have place : (h*(s.rdim/2)+i)/(s.rdim/2) = h ∧ (h*(s.rdim/2)+i)%(s.rdim/2) = i := by
      rw [Nat.mul_comm,Nat.mul_add_div (by omega),Nat.mul_add_mod,Nat.div_eq_of_lt below,Nat.mod_eq_of_lt below]
      exact ⟨rfl,rfl⟩
    have here := turned.pair (h*(s.rdim/2)+i) (Cells.row_below head below)
    rwa [place.1,place.2] at here
  · refine turned.rest q fun k below => ?_
    have wide := some_pairs below
    exact free _ ((Nat.div_lt_iff_lt_mul wide).mpr below) _ (Nat.mod_lt k wide)

theorem rotateHeads_row (unit : ∀ x,t.cos x*t.cos x+t.sin x*t.sin x = 1) (span : InSpan pair s.rdim) (within : s.rdim ≤ s.hdim)
    (fits : ∀ h < s.heads,h*s.hdim+s.rdim ≤ od) (angle : Nat → K) (dp : Nat) (x dst : Nat → K) :
    RowRotated t pair angle s od x (fun j => rotateHeads t pair (s.rdim/2) angle s dp (splice dst dp od x) (dp+j)) ∧
      ∀ q,q < dp ∨ dp+od ≤ q → rotateHeads t pair (s.rdim/2) angle s dp (splice dst dp od x) q = dst q := by
  obtain ⟨pairs,rest⟩ := rotateHeads_turned t span within angle dp (splice dst dp od x)
  have copied : ∀ j < od,splice dst dp od x (dp+j) = x j := fun j below => by
    rw [splice,if_pos (by omega),Nat.add_sub_cancel_left]
  have inRow : ∀ h < s.heads,∀ i < s.rdim/2,h*s.hdim+(pair i).1 < od ∧ h*s.hdim+(pair i).2 < od := fun h head i below => by
    have room := fits h head
    have low := span.inside i below
    omega
  have turned : ∀ h < s.heads,∀ i < s.rdim/2,
      (rotateHeads t pair (s.rdim/2) angle s dp (splice dst dp od x) (dp+(h*s.hdim+(pair i).1)),
        rotateHeads t pair (s.rdim/2) angle s dp (splice dst dp od x) (dp+(h*s.hdim+(pair i).2))) =
      rotate (t.cos (angle i)) (t.sin (angle i)) (x (h*s.hdim+(pair i).1)) (x (h*s.hdim+(pair i).2)) := fun h head i below => by
    obtain ⟨low,low'⟩ := inRow h head i below
    have here := pairs h head i below
    simp only [headPair,Nat.add_assoc] at here
    rwa [copied _ low,copied _ low'] at here
  refine ⟨⟨turned,fun h head i below => ?_,fun j below free => ?_⟩,fun q outside => ?_⟩
  · obtain ⟨first',second⟩ := Prod.ext_iff.mp (turned h head i below)
    dsimp only at first' second
    rw [first',second,rotate_squares (unit _)]
  · rw [rest (dp+j) fun h head i small => ?_,copied j below]
    have other := free h head i small
    unfold headPair
    omega
  · rw [rest q fun h head i small => ?_,splice,if_neg (by omega)]
    have inside := inRow h head i small
    unfold headPair
    omega

theorem RowRotated.congr {angle : Nat → K} {x y y' : Nat → K} (rotated : RowRotated t pair angle s od x y)
    (span : InSpan pair s.rdim) (fits : ∀ h < s.heads,h*s.hdim+s.rdim ≤ od) (same : ∀ j < od,y' j = y j) :
    RowRotated t pair angle s od x y' := by
  obtain ⟨turned,squares,rest⟩ := rotated
  have cells : ∀ h < s.heads,∀ i < s.rdim/2,
      y' (h*s.hdim+(pair i).1) = y (h*s.hdim+(pair i).1) ∧ y' (h*s.hdim+(pair i).2) = y (h*s.hdim+(pair i).2) := fun h head i below => by
    have room := fits h head
    have low := span.inside i below
    exact ⟨same _ (by omega),same _ (by omega)⟩
  refine ⟨fun h head i below => ?_,fun h head i below => ?_,fun j below free => ?_⟩
  · rw [(cells h head i below).1,(cells h head i below).2]
    exact turned h head i below
  · rw [(cells h head i below).1,(cells h head i below).2]
    exact squares h head i below
  · rw [same j below]
    exact rest j below free

theorem opRope_rows (unit : ∀ x,t.cos x*t.cos x+t.sin x*t.sin x = 1) (span : InSpan pair s.rdim) (within : s.rdim ≤ s.hdim)
    (fits : ∀ h < s.heads,h*s.hdim+s.rdim ≤ od) (call : RopeCall K) :
    let out := opRope (fun pos theta => rotateHeads t pair (s.rdim/2) (ropeAngle t theta s.rdim pos) s) od call
    (∀ p < call.r,RowRotated t pair (ropeAngle t call.theta s.rdim (ropePos call p)) s od (ropeRow call od p) fun j => out (p*od+j)) ∧
      ∀ q,call.r*od ≤ q → out q = call.dst q := by
  dsimp only [opRope]
  generalize call.r = n
  induction n with
  | zero => exact ⟨fun p none' => absurd none' (Nat.not_lt_zero p),fun q _ => rfl⟩
  | succ n ih =>
    obtain ⟨rows,behind⟩ := ih
    rw [Nat.fold_succ]
    obtain ⟨row,around⟩ := rotateHeads_row t unit span within fits (ropeAngle t call.theta s.rdim (ropePos call n)) (n*od)
      (ropeRow call od n) (n.fold (fun p _ dst => rotateHeads t pair (s.rdim/2) (ropeAngle t call.theta s.rdim (ropePos call p)) s
        (p*od) (splice dst (p*od) od (ropeRow call od p))) call.dst)
    refine ⟨fun p below => ?_,fun q far => ?_⟩
    · rcases Nat.lt_succ_iff_lt_or_eq.mp below with earlier | rfl
      · refine (rows p earlier).congr t span fits fun j small => around _ (.inl ?_)
        exact Cells.row_below earlier small
      · exact row
    · rw [Nat.succ_mul] at far
      rw [around q (.inr far),behind q (by omega)]

theorem ropeNorm_even (even : s.heads = 0 ∨ 2 ∣ s.rdim) :
    ropeNorm t s = fun pos theta => rotateHeads t normPair (s.rdim/2) (ropeAngle t theta s.rdim pos) s := by
  funext pos theta dp m
  unfold ropeNorm
  rcases even with none' | even
  · unfold rotateHeads
    rw [none',Nat.fold_zero,Nat.fold_zero]
  · rw [show (s.rdim+1)/2 = s.rdim/2 by omega]

theorem ropes_touch (unit : ∀ x,t.cos x*t.cos x+t.sin x*t.sin x = 1) (within : s.rdim ≤ s.hdim)
    (holds : s.heads = 0 ∨ 2 ∣ s.rdim ∧ (s.heads-1)*s.hdim+s.rdim ≤ od) :
    TouchesSpans t (neoxPair s.rdim) (opRopeNeox t) s od ∧ TouchesSpans t normPair (opRopeNorm t) s od := by
  have fits : ∀ h < s.heads,h*s.hdim+s.rdim ≤ od := fun h head => by
    rcases holds with none' | ⟨_,room⟩
    · omega
    · have earlier := Nat.mul_le_mul_right s.hdim (show h ≤ s.heads-1 by omega)
      omega
  refine ⟨⟨neoxPair_inSpan _,fun call => ⟨_,rfl,?_⟩⟩,⟨normPair_inSpan _,fun call => ⟨_,if_neg ?_,?_⟩⟩⟩
  · exact opRope_rows t unit (neoxPair_inSpan _) within fits call
  · omega
  · rw [ropeNorm_even t (holds.imp_right And.left)]
    exact opRope_rows t unit (normPair_inSpan _) within fits call

end Heads

def marked (e : Nat) : Nat → ℝ := fun q => if q = e then 1 else 0

noncomputable def libm : Trig ℝ := ⟨Real.cos,Real.sin,fun x y => x^y⟩

-- The last entry that op_rope_norm writes in a row.
def lastEntry (s : RopeShape) : Nat := (s.heads-1)*s.hdim+(2*((s.rdim+1)/2)-1)

theorem turnBy_marked {a b e : Nat} (angle : ℝ) (other : a ≠ e ∧ b ≠ e) : turnBy libm angle (marked e) a b = marked e := by
  have zeros : marked e a = 0 ∧ marked e b = 0 := ⟨if_neg other.1,if_neg other.2⟩
  unfold turnBy turnPair
  rw [zeros.1,zeros.2,rotate_none]
  dsimp only
  rw [← zeros.1,Function.update_eq_self,zeros.1,← zeros.2,Function.update_eq_self]

theorem turnBy_last {a e : Nat} (angle : ℝ) (other : a ≠ e) : turnBy libm angle (marked e) a e e = Real.cos angle := by
  have values : marked e a = 0 ∧ marked e e = 1 := ⟨if_neg other,if_pos rfl⟩
  unfold turnBy turnPair
  rw [Function.update_self,values.1,values.2]
  simp [rotate,libm]

-- The rounds before the last one do not reach the marked entry.
theorem ropeNorm_marked {s : RopeShape} (wide : s.rdim ≠ 0) (within : s.rdim ≤ s.hdim) (some' : s.heads ≠ 0) :
    ropeNorm libm s 1 1 0 (marked (lastEntry s)) (lastEntry s) = Real.cos 1 := by
  obtain ⟨heads,known⟩ := Nat.exists_eq_add_one_of_ne_zero some'
  obtain ⟨pairs,count⟩ : ∃ pairs,(s.rdim+1)/2 = pairs+1 := ⟨(s.rdim+1)/2-1,by omega⟩
  have last : lastEntry s = 0+heads*s.hdim+(2*pairs+1) := by
    rw [lastEntry,known,count,Nat.add_sub_cancel]
    omega
  have earlierHeads : ∀ h < heads,∀ i < pairs+1,
      0+h*s.hdim+(normPair i).1 ≠ lastEntry s ∧ 0+h*s.hdim+(normPair i).2 ≠ lastEntry s := fun h earlier i below => by
    have next := Nat.mul_le_mul_right s.hdim (Nat.succ_le_of_lt earlier)
    rw [Nat.succ_mul] at next
    rw [last]
    dsimp only [normPair]
    omega
  have earlierPairs : ∀ i < pairs,
      0+heads*s.hdim+(normPair i).1 ≠ lastEntry s ∧ 0+heads*s.hdim+(normPair i).2 ≠ lastEntry s := fun i below => by
    rw [last]
    dsimp only [normPair]
    omega
  unfold ropeNorm rotateHeads
  rw [known,count,Nat.fold_succ,fold_still fun h earlier => fold_still fun i below => turnBy_marked _ (earlierHeads h earlier i below)]
  rw [Nat.fold_succ,fold_still fun i below => turnBy_marked _ (earlierPairs i below)]
  have angle : ropeAngle libm 1 s.rdim 1 pairs = 1 := by simp [ropeAngle,libm]
  have second : 0+heads*s.hdim+(normPair pairs).2 = lastEntry s := last.symm
  rw [angle,second]
  refine turnBy_last 1 ?_
  rw [last]
  dsimp only [normPair]
  omega

noncomputable def markedCall (e : Nat) : RopeCall ℝ := ⟨1,1,0,1,marked e,marked e⟩

theorem opRope_marked (s : RopeShape) (od e : Nat) : opRope (ropeNorm libm s) od (markedCall e) = ropeNorm libm s 1 1 0 (marked e) := by
  have copied : splice (marked e) (0*od) od (ropeRow (markedCall e) od 0) = marked e := by
    funext q
    unfold splice ropeRow markedCall
    split <;> simp [u32]
  change ropeNorm libm s 1 1 (0*od) (splice (marked e) (0*od) od (ropeRow (markedCall e) od 0)) = _
  rw [copied,Nat.zero_mul]

theorem cos_one_ne : Real.cos 1 ≠ 1 := by
  have small := Real.cos_one_le
  linarith

theorem touched_outside {s : RopeShape} (wide : s.rdim ≠ 0) (within : s.rdim ≤ s.hdim) (some' : s.heads ≠ 0)
    (touches : TouchesSpans libm normPair (opRopeNorm libm) s od) : 2 ∣ s.rdim ∧ (s.heads-1)*s.hdim+s.rdim ≤ od := by
  obtain ⟨out,found,rows,behind⟩ := touches.rows (markedCall (lastEntry s))
  have run : out = ropeNorm libm s 1 1 0 (marked (lastEntry s)) := by
    unfold opRopeNorm at found
    split at found
    · cases found
    · rw [← opRope_marked s od]
      exact (Option.some.inj found).symm
  have changed : out (lastEntry s) = Real.cos 1 := by rw [run,ropeNorm_marked wide within some']
  have one' : marked (lastEntry s) (lastEntry s) = 1 := if_pos rfl
  have inRow : lastEntry s < od := by
    by_contra far
    have kept := behind (lastEntry s) (by change 1*od ≤ _; omega)
    exact cos_one_ne (changed.symm.trans (kept.trans one'))
  have even : 2 ∣ s.rdim := by
    by_contra odd
    have kept := (rows 0 Nat.one_pos).rest (lastEntry s) inRow fun h head i below => by
      have upto := Nat.mul_le_mul_right s.hdim (show h ≤ s.heads-1 by omega)
      have low := (normPair_inSpan s.rdim).inside i below
      unfold lastEntry
      rcases (show h ≤ s.heads-1 by omega).eq_or_lt with rfl | earlier
      · omega
      · have next := Nat.mul_le_mul_right s.hdim (Nat.succ_le_of_lt earlier)
        rw [Nat.succ_mul] at next
        omega
    have source : ropeRow (markedCall (lastEntry s)) od 0 (lastEntry s) = 1 := by simp [ropeRow,markedCall,u32,one']
    rw [Nat.zero_mul,Nat.zero_add,changed,source] at kept
    exact cos_one_ne kept
  refine ⟨even,?_⟩
  unfold lastEntry at inRow
  omega

-- Both operators, for a shape that the builders of the nodes accept.
theorem ropes_touch_iff {s : RopeShape} (built : ropeNode op src bits s.heads s.hdim s.rdim g = some r) :
    (TouchesSpans libm (neoxPair s.rdim) (opRopeNeox libm) s od ∧ TouchesSpans libm normPair (opRopeNorm libm) s od) ↔
      s.heads = 0 ∨ 2 ∣ s.rdim ∧ (s.heads-1)*s.hdim+s.rdim ≤ od := by
  obtain ⟨_,wide,within⟩ := ropeNode_checks built
  constructor
  · rintro ⟨_,touches⟩
    rcases Nat.eq_zero_or_pos s.heads with none' | some'
    · exact .inl none'
    · exact .inr (touched_outside wide within some'.ne' touches)
  · exact ropes_touch libm (fun x => by simp [libm,← sq]) within

theorem evenSpan_touched : TouchesSpans libm (neoxPair 4) (opRopeNeox libm) ⟨2,6,4⟩ 12 ∧
    TouchesSpans libm normPair (opRopeNorm libm) ⟨2,6,4⟩ 12 := by
  have accepted : (ropeNode .ropeNorm 0 0 2 6 4 graphNew).isSome = true := rfl
  obtain ⟨r,built⟩ := Option.isSome_iff_exists.mp accepted
  exact (ropes_touch_iff (s:=⟨2,6,4⟩) built).mpr (.inr (by decide))

-- A head of four with the first three to rotate: the fourth entry is changed.
theorem oddSpan_touched : (ropeNode .ropeNorm 0 0 1 4 3 graphNew).isSome = true ∧
    ¬ TouchesSpans libm normPair (opRopeNorm libm) ⟨1,4,3⟩ 4 := by
  refine ⟨by decide,fun touches => ?_⟩
  have even := (touched_outside (by decide) (by decide) (by decide) touches).1
  exact absurd even (by decide)

end TinyLlama.Cpu
