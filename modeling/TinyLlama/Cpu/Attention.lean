import TinyLlama.Cpu.MatVec
import TinyLlama.Lib.Softmax
import TinyLlama.Machine

-- backend/cpu/cpu_op.c: op_attn. The arithmetic is exact and exp a parameter; positions and key counts are naturals.
namespace TinyLlama.Cpu
open Quants Simd Sweep Softmax

structure AttnConfig where
  nHead : Nat
  nKvHead : Nat
  headDim : Nat
  kvHeadDim : Nat
deriving Repr,DecidableEq

namespace AttnConfig

def qDim (c : AttnConfig) : Nat := u32 (c.nHead*c.headDim)
def kvDim (c : AttnConfig) : Nat := u32 (c.nKvHead*c.kvHeadDim)
def gqa (c : AttnConfig) : Nat := c.nHead/c.nKvHead

end AttnConfig

structure AttnKvCache (K : Type) where
  k : Nat → K
  v : Nat → K
  n : Nat
  cap : Nat

-- The rows of a call, and what its output and its scratch held before.
structure AttnCall (K : Type) where
  n : Nat
  qd : Nat → K
  kd : Nat → K
  vd : Nat → K
  dst : Nat → K
  scr : Nat → K

section Operator
variable {K : Type} [Field K] [LinearOrder K]

def peak (x : Nat → K) (n : Nat) : K := (n-1).fold (fun i _ mx => if x (i+1) > mx then x (i+1) else mx) (x 0)

def softmax (exp : K → K) (x : Nat → K) (n : Nat) : Nat → K :=
  let mx := peak x n
  let (x,sum) := n.fold (fun i _ (s : (Nat → K) × K) =>
    let e := exp (s.1 i-mx)
    (Function.update s.1 i e,s.2+e)) (x,0)
  n.fold (fun i _ x => Function.update x i (x i/sum)) x

-- for (d = 0; d < len; d++) oh[d] += st * vt[d]
def addScaled (dst : Nat → K) (oh len : Nat) (st : K) (vt : Nat → K) : Nat → K :=
  fun p => if oh ≤ p ∧ p < oh+len then dst p+st*vt (p-oh) else dst p

def kvRow (c : AttnConfig) (hs pos i : Nat) (src m : Nat → K) : Nat → K :=
  c.nKvHead.fold (fun h _ m =>
    splice m (h*hs+(pos+i)*c.kvHeadDim) c.kvHeadDim fun d => src (i*c.kvDim+h*c.kvHeadDim+d)) m

def kvWrite (c : AttnConfig) (hs pos n : Nat) (src m : Nat → K) : Nat → K := n.fold (fun i _ m => kvRow c hs pos i src m) m

-- The last `win` keys stay visible; all of them where win is 0.
def visibleStart (win nKeys : Nat) : Nat := if win ≠ 0 ∧ nKeys > win then nKeys-win else 0

def attnHead (avx2 : Bool) (exp : K → K) (scale : K) (kh vh qh : Nat → K) (khd nVis oh : Nat) (s : (Nat → K) × (Nat → K)) :
    (Nat → K) × (Nat → K) :=
  let scr := mulMatVec avx2 s.1 kh qh nVis khd
  let scr := nVis.fold (fun t _ scr => Function.update scr t (scr t*scale)) scr
  let scr := softmax exp scr nVis
  (scr,nVis.fold (fun t _ dst => addScaled dst oh khd (scr t) fun d => vh (t*khd+d)) s.2)

def opAttn (avx2 : Bool) (exp : K → K) (scale : K) (c : AttnConfig) (win : Nat) (akc : AttnKvCache K) (pos : Nat) (call : AttnCall K) :
    AttnKvCache K × (Nat → K) :=
  let khd := c.kvHeadDim
  let hs := u32 (akc.cap*khd)
  let k := kvWrite c hs pos call.n call.kd akc.k
  let v := kvWrite c hs pos call.n call.vd akc.v
  let dst p := if p < call.n*c.qDim then 0 else call.dst p
  let (_,dst) := c.nHead.fold (fun h _ s =>
    let kvH := h/c.gqa
    call.n.fold (fun qi _ s =>
      let oh := qi*c.qDim+h*c.headDim
      let nKeys := pos+qi+1
      let start := visibleStart win nKeys
      attnHead avx2 exp scale (fun p => k (kvH*hs+start*khd+p)) (fun p => v (kvH*hs+start*khd+p)) (fun j => call.qd (oh+j))
        khd (nKeys-start) oh s) s) (call.scr,dst)
  ({akc with k,v,n := pos+call.n},dst)

end Operator

section Peak
variable {K : Type} [LinearOrder K]

theorem peak_le (x : Nat → K) {n : Nat} (some' : 0 < n) (c : K) : peak x n ≤ c ↔ ∀ i < n,x i ≤ c := by
  obtain ⟨m,rfl⟩ : ∃ m,n = m+1 := ⟨n-1,by omega⟩
  unfold peak
  rw [Nat.add_sub_cancel]
  induction m with
  | zero => simp
  | succ m ih =>
    rw [Nat.fold_succ]
    have step : ∀ mx : K,(if x (m+1) > mx then x (m+1) else mx) ≤ c ↔ mx ≤ c ∧ x (m+1) ≤ c := by
      intro mx
      split
      · next larger => exact ⟨fun small => ⟨larger.le.trans small,small⟩,And.right⟩
      · next smaller => exact ⟨fun small => ⟨small,(not_lt.mp smaller).trans small⟩,And.left⟩
    rw [step,ih (by omega),Nat.forall_lt_succ_right (n:=m+1)]

theorem peak_congr {x y : Nat → K} {n : Nat} (some' : 0 < n) (same : ∀ i < n,x i = y i) : peak x n = peak y n := by
  refine eq_of_forall_ge_iff fun c => ?_
  rw [peak_le x some',peak_le y some']
  exact forall_congr' fun i => imp_congr_right fun below => by rw [same i below]

end Peak

section Softmax
variable {K : Type} [Field K] (exp : K → K)

theorem softmax_pass (x : Nat → K) (mx : K) (n : Nat) :
    n.fold (fun i _ (s : (Nat → K) × K) => (Function.update s.1 i (exp (s.1 i-mx)),s.2+exp (s.1 i-mx))) (x,0) =
      (fun k => if k < n then exp (x k-mx) else x k,∑ i ∈ Finset.range n,exp (x i-mx)) := by
  induction n with
  | zero => simp
  | succ n ih =>
    rw [Nat.fold_succ,ih,Finset.sum_range_succ]
    simp only [lt_irrefl,if_false]
    congr 1
    funext k
    rw [Function.update_apply]
    by_cases last : k = n
    · rw [if_pos last,if_pos (by omega),last]
    · have same : k < n ↔ k < n+1 := by omega
      rw [if_neg last]
      simp only [same]

variable [LinearOrder K]

theorem softmax_at (x : Nat → K) {n t : Nat} (below : t < n) :
    softmax exp x n t = exp (x t-peak x n)/mass exp (Finset.range n) x (peak x n) := by
  unfold softmax
  dsimp only
  rw [softmax_pass,fold_modify n fun _ e => e/_,if_pos below]
  dsimp only
  rw [if_pos below]
  rfl

end Softmax

section Heads
variable {K : Type} [Field K]

theorem addScaled_fold (oh len : Nat) (st : Nat → K) (vt : Nat → Nat → K) (n : Nat) (dst : Nat → K) (p : Nat) :
    n.fold (fun t _ dst => addScaled dst oh len (st t) (vt t)) dst p =
      dst p+if oh ≤ p ∧ p < oh+len then ∑ t ∈ Finset.range n,st t*vt t (p-oh) else 0 := by
  rw [fold_total (m:=fun dst : Nat → K => dst p) (b:=fun t dst => addScaled dst oh len (st t) (vt t))
    (d:=fun t => if oh ≤ p ∧ p < oh+len then st t*vt t (p-oh) else 0)]
  · split
    · rfl
    · rw [Finset.sum_const_zero]
  · intro t _ dst
    unfold addScaled
    split
    · rfl
    · rw [add_zero]

variable [LinearOrder K] (avx2 : Bool) (exp : K → K) (scale : K)

def score (scale : K) (kh qh : Nat → K) (khd t : Nat) : K := (∑ j ∈ Finset.range khd,kh (t*khd+j)*qh j)*scale

-- The value that a query adds at dimension d.
def headMean (exp : K → K) (scale : K) (kh vh qh : Nat → K) (khd nVis d : Nat) : K :=
  weighted exp (Finset.range nVis) (score scale kh qh khd) (fun t => vh (t*khd+d)) (peak (score scale kh qh khd) nVis)/
    mass exp (Finset.range nVis) (score scale kh qh khd) (peak (score scale kh qh khd) nVis)

theorem attnHead_dst {khd nVis : Nat} (wide : 0 < khd) (some' : 0 < nVis) (kh vh qh : Nat → K) (oh : Nat) (s : (Nat → K) × (Nat → K))
    (p : Nat) : (attnHead avx2 exp scale kh vh qh khd nVis oh s).2 p =
      s.2 p+if oh ≤ p ∧ p < oh+khd then headMean exp scale kh vh qh khd nVis (p-oh) else 0 := by
  have scores : ∀ t < nVis,nVis.fold (fun t _ scr => Function.update scr t (scr t*scale)) (mulMatVec avx2 s.1 kh qh nVis khd) t =
      score scale kh qh khd t := by
    intro t below
    rw [fold_modify nVis fun _ x => x*scale,if_pos below,mulMatVec_eq avx2 _ _ _ some' wide,if_pos below]
    rfl
  have largest := peak_congr some' scores
  have weight : ∀ t ∈ Finset.range nVis,softmax exp (nVis.fold (fun t _ scr => Function.update scr t (scr t*scale))
      (mulMatVec avx2 s.1 kh qh nVis khd)) nVis t =
      exp (score scale kh qh khd t-peak (score scale kh qh khd) nVis)/
        mass exp (Finset.range nVis) (score scale kh qh khd) (peak (score scale kh qh khd) nVis) := by
    intro t member
    have below := Finset.mem_range.mp member
    rw [softmax_at exp _ below,largest,scores t below,mass,mass,
      Finset.sum_congr rfl fun i inside => by rw [scores i (Finset.mem_range.mp inside)]]
  unfold attnHead
  dsimp only
  rw [addScaled_fold]
  congr 1
  split
  · rw [headMean,← sum_weights]
    exact Finset.sum_congr rfl fun t member => by rw [weight t member]
  · rfl

theorem visibleStart_lt {win nKeys : Nat} (some' : 0 < nKeys) : visibleStart win nKeys < nKeys := by
  unfold visibleStart
  split <;> omega

theorem opAttn_dst (c : AttnConfig) (win : Nat) (akc : AttnKvCache K) (pos : Nat) (call : AttnCall K) (wide : 0 < c.kvHeadDim) (p : Nat) :
    (opAttn avx2 exp scale c win akc pos call).2 p = (if p < call.n*c.qDim then 0 else call.dst p)+
      ∑ h ∈ Finset.range c.nHead,∑ qi ∈ Finset.range call.n,
        if qi*c.qDim+h*c.headDim ≤ p ∧ p < qi*c.qDim+h*c.headDim+c.kvHeadDim then
          let at' m p := kvWrite c (u32 (akc.cap*c.kvHeadDim)) pos call.n m.1 m.2
            (h/c.gqa*u32 (akc.cap*c.kvHeadDim)+visibleStart win (pos+qi+1)*c.kvHeadDim+p)
          headMean exp scale (at' (call.kd,akc.k)) (at' (call.vd,akc.v)) (fun j => call.qd (qi*c.qDim+h*c.headDim+j)) c.kvHeadDim
            (pos+qi+1-visibleStart win (pos+qi+1)) (p-(qi*c.qDim+h*c.headDim))
        else 0 := by
  unfold opAttn
  dsimp only
  refine (fold_total (m:=fun s : (Nat → K) × (Nat → K) => s.2 p) (fun h _ s => ?_) _)
  refine (fold_total (m:=fun s : (Nat → K) × (Nat → K) => s.2 p) (fun qi _ s => ?_) _)
  exact attnHead_dst avx2 exp scale wide (Nat.sub_pos_of_lt (visibleStart_lt (Nat.succ_pos _))) _ _ _ _ _ _

end Heads

end TinyLlama.Cpu
