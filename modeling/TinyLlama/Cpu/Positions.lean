import TinyLlama.Cpu.Elementwise
import TinyLlama.Cpu.History
import TinyLlama.Cpu.Rope

namespace TinyLlama.Cpu
open Sweep Turns Softmax Cells Gguf Quants Access Interleave

section Loops
variable {K : Type} {od r : Nat}

theorem fold_image {σ τ : Type} (image : τ → σ) {n : Nat} {f : Nat → σ → σ} {g : Nat → τ → τ} (each : ∀ t < n,∀ y,f t (image y) = image (g t y))
    (y : τ) : n.fold (fun t _ s => f t s) (image y) = image (n.fold (fun t _ y => g t y) y) := by
  induction n with
  | zero => rfl
  | succ n ih => rw [Nat.fold_succ,ih fun t below => each t (below.trans n.lt_succ_self),each n n.lt_succ_self,Nat.fold_succ]

theorem fold_done {body : Nat → (Nat → K) → Nat → K} {v : Nat → Nat → K} (each : ∀ p < r,∀ dst,body p dst = splice dst (p*od) od (v p))
    (dst : Nat → K) : RowsDone (some (r.fold (fun p _ dst => body p dst) dst)) r od v := by
  have whole : r.fold (fun p _ dst => body p dst) dst = splice dst 0 (r*od) fun a => v (a/od) (a%od) := by
    refine fold_splice rfl (fun p below out => ?_) dst
    rw [each p below,Nat.zero_add]
    exact splice_congr fun j small => by rw [place_row small,Nat.mul_add_mod_of_lt small]
  refine ⟨_,rfl,fun p below j small => ?_⟩
  have inside := row_below below small
  rw [whole,splice,if_pos (by omega),Nat.sub_zero,place_row small,Nat.mul_add_mod_of_lt small]

theorem splice_at (dst : Nat → K) (dp : Nat) (x : Nat → K) {a : Nat} (inside : a < od) : splice dst dp od x (dp+a) = x a := by
  rw [splice,if_pos (by omega),Nat.add_sub_cancel_left]

theorem splice_update (dst : Nat → K) (dp : Nat) (x : Nat → K) {a : Nat} (inside : a < od) (value : K) :
    Function.update (splice dst dp od x) (dp+a) value = splice dst dp od (Function.update x a value) := by
  funext k
  rw [Function.update_apply]
  by_cases here : k = dp+a
  · rw [if_pos here,here,splice_at dst dp _ inside,Function.update_self]
  · rw [if_neg here]
    unfold splice
    split
    · rw [Function.update_of_ne (by omega)]
    · rfl

end Loops

section Turning
variable {K : Type} [Field K] (t : Trig K) {pair : Pairing} {pairs od : Nat} {angle : Nat → K} {s : RopeShape}

def InRow (pair : Pairing) (pairs : Nat) (s : RopeShape) (od : Nat) : Prop :=
  ∀ h < s.heads,∀ i < pairs,h*s.hdim+(pair i).1 < od ∧ h*s.hdim+(pair i).2 < od

def rotatedRow (pair : Pairing) (pairs : Nat) (angle : Nat → K) (s : RopeShape) (x : Nat → K) : Nat → K := rotateHeads t pair pairs angle s 0 x

theorem rotateHeads_splice (room : InRow pair pairs s od) (dp : Nat) (dst x : Nat → K) :
    rotateHeads t pair pairs angle s dp (splice dst dp od x) = splice dst dp od (rotatedRow t pair pairs angle s x) := by
  refine fold_image (splice dst dp od) (fun h head y => ?_) x
  refine fold_image (splice dst dp od) (fun i below y => ?_) y
  obtain ⟨low,low'⟩ := room h head i below
  rw [Nat.zero_add,Nat.add_assoc,Nat.add_assoc]
  unfold turnBy turnPair
  rw [splice_at dst dp y low,splice_at dst dp y low',splice_update dst dp y low,splice_update dst dp _ low']

theorem rotatedRow_near (room : InRow pair pairs s od) {x y : Nat → K} (same : ∀ j < od,x j = y j) {j : Nat} (small : j < od) :
    rotatedRow t pair pairs angle s x j = rotatedRow t pair pairs angle s y j := by
  have images : splice x 0 od (rotatedRow t pair pairs angle s x) = splice x 0 od (rotatedRow t pair pairs angle s y) := by
    rw [← rotateHeads_splice t room,← rotateHeads_splice t room,splice_congr same]
  have here := congrFun images (0+j)
  rwa [splice_at x 0 _ small,splice_at x 0 _ small] at here

theorem opRope_done (room : InRow pair pairs s od) (call : RopeCall K) :
    RowsDone (some (opRope (fun pos theta => rotateHeads t pair pairs (ropeAngle t theta s.rdim pos) s) od call)) call.r od fun p =>
      rotatedRow t pair pairs (ropeAngle t call.theta s.rdim (ropePos call p)) s (ropeRow call od p) :=
  fold_done (r:=call.r) (v:=fun p => rotatedRow t pair pairs (ropeAngle t call.theta s.rdim (ropePos call p)) s (ropeRow call od p))
    (fun p _ dst => rotateHeads_splice t room (p*od) dst (ropeRow call od p)) call.dst

theorem opRopeNeox_done (room : InRow (neoxPair s.rdim) (s.rdim/2) s od) (call : RopeCall K) :
    RowsDone (opRopeNeox t s od call) call.r od fun p =>
      rotatedRow t (neoxPair s.rdim) (s.rdim/2) (ropeAngle t call.theta s.rdim (ropePos call p)) s (ropeRow call od p) :=
  opRope_done t room call

theorem opRopeNorm_done (room : InRow normPair ((s.rdim+1)/2) s od) (ends : s.rdim < 2^32-1) (call : RopeCall K) :
    RowsDone (opRopeNorm t s od call) call.r od fun p =>
      rotatedRow t normPair ((s.rdim+1)/2) (ropeAngle t call.theta s.rdim (ropePos call p)) s (ropeRow call od p) := by
  rw [opRopeNorm,if_neg (by omega)]
  exact opRope_done t room call

end Turning

section Attending
variable {K : Type} [Field K] [LinearOrder K]

def attnRead (avx2 : Bool) (exp : K → K) (scale : K) (c : AttnConfig) (win hs : Nat) (k v : Nat → K) (pos n : Nat) (qd dst scr : Nat → K) :
    Nat → K :=
  let khd := c.kvHeadDim
  (c.nHead.fold (fun h _ s =>
    let kvH := h/c.gqa
    n.fold (fun qi _ s =>
      let oh := qi*c.qDim+h*c.headDim
      let nKeys := pos+qi+1
      let start := visibleStart win nKeys
      attnHead avx2 exp scale (fun p => k (kvH*hs+start*khd+p)) (fun p => v (kvH*hs+start*khd+p)) (fun j => qd (oh+j))
        khd (nKeys-start) oh s) s) (scr,fun p => if p < n*c.qDim then 0 else dst p)).2

theorem opAttn_split (avx2 : Bool) (exp : K → K) (scale : K) (c : AttnConfig) (win : Nat) (akc : AttnKvCache K) (pos : Nat) (call : AttnCall K) :
    let hs := u32 (akc.cap*c.kvHeadDim)
    let k := kvWrite c hs pos call.n call.kd akc.k
    let v := kvWrite c hs pos call.n call.vd akc.v
    opAttn avx2 exp scale c win akc pos call =
      ({akc with k,v,n := pos+call.n},attnRead avx2 exp scale c win hs k v pos call.n call.qd call.dst call.scr) := rfl

def attended (exp : K → K) (scale : K) (c : AttnConfig) (win : Nat) (key value : Nat → Nat → Nat → K) (q : Nat → K) (pos j : Nat) : K :=
  let h := j/c.headDim
  attention exp scale (visible win pos) (fun d => q (h*c.headDim+d)) (key (h/c.gqa)) (value (h/c.gqa)) c.headDim (j%c.headDim)

variable {avx2 : Bool} {exp : K → K} {scale : K} {c : AttnConfig} {win hs pos n i h d : Nat} {k v qd dst scr : Nat → K}

theorem attention_near {seen : Finset Nat} {q q' : Nat → K} {k k' v v' : Nat → Nat → K} {hd : Nat} (same : ∀ j < hd,q j = q' j)
    (keys : ∀ s ∈ seen,∀ j < hd,k s j = k' s j) (values : ∀ s ∈ seen,v s d = v' s d) :
    attention exp scale seen q k v hd d = attention exp scale seen q' k' v' hd d := by
  have scores : ∀ s ∈ seen,scale*∑ j ∈ Finset.range hd,q j*k s j = scale*∑ j ∈ Finset.range hd,q' j*k' s j := by
    intro s listed
    congr 1
    refine Finset.sum_congr rfl fun j member => ?_
    have small := Finset.mem_range.mp member
    rw [same j small,keys s listed j small]
  have largest : top seen (fun s => scale*∑ j ∈ Finset.range hd,q j*k s j) = top seen fun s => scale*∑ j ∈ Finset.range hd,q' j*k' s j := by
    unfold top
    split
    · exact Finset.sup'_congr _ rfl scores
    · rfl
  unfold attention
  dsimp only
  rw [largest]
  refine congrArg₂ _ (Finset.sum_congr rfl fun s listed => ?_) (Finset.sum_congr rfl fun s listed => ?_)
  · dsimp only
    rw [scores s listed,values s listed]
  · dsimp only
    rw [scores s listed]

theorem attnRead_dst (wide : 0 < c.kvHeadDim) (p : Nat) : attnRead avx2 exp scale c win hs k v pos n qd dst scr p =
    (if p < n*c.qDim then 0 else dst p)+∑ h ∈ Finset.range c.nHead,∑ qi ∈ Finset.range n,
      if qi*c.qDim+h*c.headDim ≤ p ∧ p < qi*c.qDim+h*c.headDim+c.kvHeadDim then
        let at' m p := m (h/c.gqa*hs+visibleStart win (pos+qi+1)*c.kvHeadDim+p)
        headMean exp scale (at' k) (at' v) (fun j => qd (qi*c.qDim+h*c.headDim+j)) c.kvHeadDim
          (pos+qi+1-visibleStart win (pos+qi+1)) (p-(qi*c.qDim+h*c.headDim))
      else 0 := by
  unfold attnRead
  dsimp only
  refine (fold_total (m:=fun s : (Nat → K) × (Nat → K) => s.2 p) (fun h _ s => ?_) _)
  refine (fold_total (m:=fun s : (Nat → K) × (Nat → K) => s.2 p) (fun qi _ s => ?_) _)
  exact attnHead_dst avx2 exp scale wide (Nat.sub_pos_of_lt (visibleStart_lt (Nat.succ_pos _))) _ _ _ _ _ _

theorem attnRead_place (square : c.kvHeadDim = c.headDim) (narrow : c.nHead*c.headDim < 2^32) (row : i < n) (head : h < c.nHead)
    (small : d < c.headDim) : attnRead avx2 exp scale c win hs k v pos n qd dst scr (i*c.qDim+(h*c.headDim+d)) =
      let at' m p := m (h/c.gqa*hs+visibleStart win (pos+i+1)*c.kvHeadDim+p)
      headMean exp scale (at' k) (at' v) (fun j => qd (i*c.qDim+h*c.headDim+j)) c.kvHeadDim (pos+i+1-visibleStart win (pos+i+1)) d := by
  have flat : ∀ qi h,qi*c.qDim+h*c.headDim = (qi*c.nHead+h)*c.headDim := by
    intro qi h
    rw [qDim_of narrow,Nat.add_mul,Nat.mul_assoc]
  have cleared : i*c.qDim+(h*c.headDim+d) < n*c.qDim := by
    refine row_below row ?_
    rw [qDim_of narrow]
    exact row_below head small
  have own : ∀ qi h',h' < c.nHead → (qi*c.qDim+h'*c.headDim ≤ i*c.qDim+(h*c.headDim+d) ∧
      i*c.qDim+(h*c.headDim+d) < qi*c.qDim+h'*c.headDim+c.kvHeadDim ↔ h' = h ∧ qi = i) := by
    intro qi h' head'
    rw [← Nat.add_assoc,flat,flat,square,row_inside small]
    constructor
    · intro same
      obtain ⟨query,lane⟩ := row_inj head' head same
      exact ⟨lane,query⟩
    · rintro ⟨rfl,rfl⟩
      rfl
  rw [attnRead_dst (by omega),if_pos cleared,zero_add,Finset.sum_eq_single h,Finset.sum_eq_single i]
  · rw [if_pos ((own i h head).mpr ⟨rfl,rfl⟩),← Nat.add_assoc,Nat.add_sub_cancel_left]
  · intro qi _ other
    exact if_neg fun inside => other ((own qi h head).mp inside).2
  · intro out
    exact absurd (Finset.mem_range.mpr row) out
  · intro h' member other
    refine Finset.sum_eq_zero fun qi _ => ?_
    exact if_neg fun inside => other ((own qi h' (Finset.mem_range.mp member)).mp inside).1
  · intro out
    exact absurd (Finset.mem_range.mpr head) out

theorem attnRead_done (square : c.kvHeadDim = c.headDim) (wide : 0 < c.headDim) (narrow : c.nHead*c.headDim < 2^32)
    (key value : Nat → Nat → Nat → K)
    (keys : ∀ h < c.nHead,∀ s < pos+n,∀ d < c.headDim,k (h/c.gqa*hs+s*c.headDim+d) = key (h/c.gqa) s d)
    (values : ∀ h < c.nHead,∀ s < pos+n,∀ d < c.headDim,v (h/c.gqa*hs+s*c.headDim+d) = value (h/c.gqa) s d) :
    RowsDone (some (attnRead avx2 exp scale c win hs k v pos n qd dst scr)) n c.qDim fun r =>
      attended exp scale c win key value (fun j => qd (r*c.qDim+j)) (pos+r) := by
  refine ⟨_,rfl,fun r row j small => ?_⟩
  rw [qDim_of narrow] at small
  have head : j/c.headDim < c.nHead := (Nat.div_lt_iff_lt_mul wide).mpr small
  have lane := Nat.mod_lt j wide
  have start : visibleStart win (pos+r+1) < pos+r+1 := visibleStart_lt (Nat.succ_pos _)
  have place := @attnRead_place K _ _ avx2 exp scale c win hs pos n r (j/c.headDim) (j%c.headDim) k v qd dst scr square narrow row head lane
  rw [Nat.div_add_mod' j c.headDim] at place
  rw [place,attended,visible_eq]
  dsimp only
  rw [square]
  have address : ∀ t d,j/c.headDim/c.gqa*hs+visibleStart win (pos+r+1)*c.headDim+(t*c.headDim+d) =
      j/c.headDim/c.gqa*hs+(visibleStart win (pos+r+1)+t)*c.headDim+d := by
    intro t d
    rw [Nat.add_mul]
    omega
  simp only [Nat.add_assoc (r*c.qDim)]
  refine headMean_eq start (fun t below d inside => ?_) fun t below => ?_
  · rw [address]
    exact keys _ head _ (by omega) d inside
  · rw [address]
    exact values _ head _ (by omega) _ lane

end Attending

section Products
variable {K : Type} [Field K]

-- A row of the product.
def multipliedRow (s : Source K) (t : TensorInfo) (trans : Bool) (x : Nat → K) (o : Nat) : K :=
  ∑ j ∈ Finset.range (inputs t trans),element s t trans o j*x j

structure Multiplies (t : TensorInfo) (trans : Bool) : Prop where
  ndim : t.ndim = 2
  elements : t.nElement = outputs t trans*inputs t trans
  tall : 0 < outputs t trans
  wide : 0 < inputs t trans
  small : outputs t trans < 2^31 ∧ inputs t trans < 2^32

theorem opMatmul_done {t : TensorInfo} {trans : Bool} (shape : Multiplies t trans) (avx2 : Bool) (stale : Nat → Nat) (s : Source K)
    (src : Nat → K) (base : Nat) {r : Nat} (batch : 0 < r) (pool : Option (Pool Cell K)) (m : Cell → K) :
    RowsDone ((opMatmul ⟨avx2,stale,s,t⟩ trans src base r pool m).bind fun out => if out.1 then some fun p => out.2 (.y p) else none)
      r (outputs t trans) fun p => multipliedRow s t trans fun j => src ((base+p)*inputs t trans+j) := by
  obtain ⟨ndim,elements,tall,wide,small⟩ := shape
  obtain ⟨m',run,products⟩ := opMatmul_products avx2 base ndim elements batch tall wide ⟨by omega,small.2⟩ (.inr (.inr (.inr small.1)))
    stale s src m
  rw [run]
  exact ⟨_,rfl,products⟩

end Products

end TinyLlama.Cpu
