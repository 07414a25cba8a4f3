import TinyLlama.Cpu.Attention
import TinyLlama.Cpu.Conv
import TinyLlama.Cpu.MatMulExact
import TinyLlama.Cpu.Norms
import TinyLlama.Quants.BatchExact

-- backend/cpu/cpu_op.c: ops row by row. The arithmetic is exact, libm a parameter; a read outside of a tensor ends the process.
namespace TinyLlama.Cpu
open Gguf Quants Access Sweep Softmax

structure RowCall (K : Type) where
  base : Nat
  r : Nat
  src : Nat → K
  dst : Nat → K

section Loops
variable {K : Type}

-- for (p = 0; p < r; p++), each on the row of the output at p*od.
def eachRow (r : Nat) (body : Nat → (Nat → K) → Option (Nat → K)) (dst : Nat → K) : Option (Nat → K) :=
  (List.range r).foldlM (fun dst p => body p dst) dst

-- Rows that are written one after another.
structure RowsDone (out : Option (Nat → K)) (r od : Nat) (v : Nat → Nat → K) : Prop where
  rows : ∃ dst,out = some dst ∧ ∀ p < r,∀ j < od,dst (p*od+j) = v p j

theorem eachRow_done {r od : Nat} {body : Nat → (Nat → K) → Option (Nat → K)} {v : Nat → Nat → K}
    (each : ∀ p < r,∀ dst,body p dst = some (splice dst (p*od) od (v p))) (dst : Nat → K) : RowsDone (eachRow r body dst) r od v := by
  refine ⟨?_⟩
  unfold eachRow
  induction r with
  | zero => exact ⟨dst,rfl,fun p none' => absurd none' (Nat.not_lt_zero p)⟩
  | succ r ih =>
    obtain ⟨before,run,rows⟩ := ih fun p below => each p (by omega)
    rw [List.range_succ,List.foldlM_append,run]
    refine ⟨splice before (r*od) od (v r),?_,fun p below j small => ?_⟩
    · change ([r].foldlM (fun dst p => body p dst) before) = _
      rw [List.foldlM_cons,each r (Nat.lt_succ_self r)]
      rfl
    · by_cases last : p = r
      · rw [last,splice,if_pos (by omega),Nat.add_sub_cancel_left]
      · have row : (p+1)*od ≤ r*od := Nat.mul_le_mul_right od (by omega)
        rw [Nat.succ_mul] at row
        rw [splice,if_neg (by omega)]
        exact rows p (by omega) j small

theorem range_update (base : Nat) (f : Nat → K) (n : Nat) (dst : Nat → K) :
    (List.range n).foldl (fun dst j => Function.update dst (base+j) (f j)) dst = splice dst base n f := by
  rw [← fold_update_from]
  induction n with
  | zero => rfl
  | succ n ih => rw [List.range_succ,List.foldl_append,ih,Nat.fold_succ]; rfl

end Loops

section Weights
variable {K : Type} [Field K]

def Weight.element (w : Weight K) (i : Nat) : K := value (ggufDequant w.tensor.type i) w.source

def Weight.buffer (w : Weight K) (n : Nat) : Option (Nat → K) :=
  (tensorGetF32Batch w.source w.tensor 0 n).map fun read => read fun _ => 0

theorem Weight.buffer_some {w : Weight K} {n : Nat} (some' : 0 < n) (inside : n ≤ w.tensor.nElement) :
    ∃ buf,w.buffer n = some buf ∧ ∀ j < n,buf j = w.element j := by
  refine ⟨ggufDequantBatch w.source w.tensor.type 0 n fun _ => 0,?_,fun j small => ?_⟩
  · unfold Weight.buffer tensorGetF32Batch
    rw [if_neg (by omega)]
    rfl
  · rw [ggufDequantBatch_exact,if_pos small,Nat.zero_add]
    rfl

end Weights

section Operators
variable {K : Type} [Field K] (lm : Libm K) (tanh : K → K)

def opEmbed (w : Weight K) (nVocab od : Nat) (tok : Nat → Nat) (n : Nat) (dst : Nat → K) : Option (Nat → K) :=
  eachRow n (fun p dst =>
    if w.tensor.dim.getD 0 0 = nVocab then
      (tensorGetF32Batch w.source w.tensor (tok p*od) od).map fun read => splice dst (p*od) od (read fun j => dst (p*od+j))
    else
      (List.range od).foldlM (fun dst j =>
        (tensorGetF32 w.source w.tensor (j*nVocab+tok p)).map fun x => Function.update dst (p*od+j) x) dst) dst

-- n is an int, compared as a u64 and cut down to the weight's first dimension. Where it stays
-- below zero, smalloc has no room for 4*(u64)n bytes or the weight has no (u64)n elements.
def rmsNorm (w : Weight K) (eps : K) (o : Nat) (x : Nat → K) (n : Int) (dst : Nat → K) : Option (Nat → K) :=
  let n := if (n%2^64).toNat > w.tensor.dim.getD 0 0 then i32 (w.tensor.dim.getD 0 0) else n
  if n < 0 then none
  else
    let n := n.toNat
    let scale := 1/lm.sqrt (squares x 0 n/n+eps)
    (w.buffer n).map fun buf => n.fold (fun i _ dst => Function.update dst (o+i) (x i*scale*buf i)) dst

def opRmsNorm (w : Weight K) (eps : K) (od : Nat) (call : RowCall K) : Option (Nat → K) :=
  eachRow call.r (fun p dst => rmsNorm lm w eps (p*od) (fun i => call.src ((call.base+p)*od+i)) (i32 od) dst) call.dst

def biasAdd (w : Weight K) (dp n : Nat) (dst : Nat → K) : Option (Nat → K) :=
  (w.buffer n).map fun buf => n.fold (fun i _ dst => Function.update dst (dp+i) (dst (dp+i)+buf i)) dst

def copiedRow (od : Nat) (call : RowCall K) (p : Nat) (dst : Nat → K) : Nat → K :=
  splice dst (p*od) od fun j => call.src ((call.base+p)*od+j)

def biasWidth (w : Weight K) (od : Nat) : Nat := if w.tensor.nElement < od then u32 w.tensor.nElement else od

def opBias (w : Weight K) (od : Nat) (call : RowCall K) : Option (Nat → K) :=
  eachRow call.r (fun p dst => biasAdd w (p*od) (biasWidth w od) (copiedRow od call p dst)) call.dst

-- OP_ADD and OP_MUL; the sources have the strides of the output.
def opBinary (f : K → K → K) (od base r : Nat) (a b dst : Nat → K) : Option (Nat → K) :=
  eachRow r (fun p dst => some (od.fold (fun j _ dst =>
    Function.update dst (p*od+j) (f (a ((base+p)*od+j)) (b ((base+p)*od+j)))) dst)) dst

-- The row is copied, then f works in place on n entries from an address on, n an int.
def opUnary (f : Nat → Int → (Nat → K) → Nat → K) (od : Nat) (call : RowCall K) : Option (Nat → K) :=
  eachRow call.r (fun p dst => some (f (p*od) (i32 od) (copiedRow od call p dst))) call.dst

def inPlace (g : K → K) (base : Nat) (n : Int) (x : Nat → K) : Nat → K :=
  n.toNat.fold (fun i _ x => Function.update x (base+i) (g (x (base+i)))) x

def geluCoefA : K := (44715 : Nat)/(1000000 : Nat)

def sqrt2OverPi : K := (7978845608028654 : Nat)/(10000000000000000 : Nat)

def gelu (v : K) : K := 1/(2 : Nat)*v*(1+tanh (sqrt2OverPi*v*(1+geluCoefA*v*v)))

def opSilu (od : Nat) (call : RowCall K) : Option (Nat → K) := opUnary (inPlace (silu lm.exp)) od call

def opGelu (od : Nat) (call : RowCall K) : Option (Nat → K) := opUnary (inPlace (gelu tanh)) od call

def opSoftmax [LinearOrder K] (od : Nat) (call : RowCall K) : Option (Nat → K) :=
  opUnary (fun base n x => splice x base (n%2^32).toNat (softmax lm.exp (fun j => x (base+j)) (n%2^32).toNat)) od call

def opScale (scale : K) (od : Nat) (call : RowCall K) : Option (Nat → K) :=
  eachRow call.r (fun p dst => some (od.fold (fun j _ dst =>
    Function.update dst (p*od+j) (call.src ((call.base+p)*od+j)*scale)) dst)) call.dst

def opSoftcap (cap : K) (od : Nat) (call : RowCall K) : Option (Nat → K) :=
  eachRow call.r (fun p dst => some (od.fold (fun j _ dst =>
    Function.update dst (p*od+j) (tanh (call.src ((call.base+p)*od+j)/cap)*cap)) dst)) call.dst

structure HeadSlices where
  heads : Nat
  headDim : Nat
  inStride : Nat
  outStride : Nat
deriving Repr,DecidableEq

def opRmsNormHeads (w : Weight K) (eps : K) (s : HeadSlices) (od : Nat) (call : RowCall K) : Option (Nat → K) :=
  (w.buffer s.headDim).bind fun nw => eachRow call.r (fun p dst => some (s.heads.fold (fun h _ dst =>
    let o := p*od+h*s.outStride
    let sp j := call.src ((call.base+p)*(s.heads*s.inStride)+j)
    rmsNormInplace lm (splice dst o s.headDim fun j => sp (h*s.inStride+j)) o nw s.headDim eps) dst)) call.dst

def sigmoid (x : K) : K := 1/(1+lm.exp (-x))

def opSigmoidGate (nh hd od base r : Nat) (a gt dst : Nat → K) : Option (Nat → K) :=
  eachRow r (fun p dst =>
    let ap j := a ((base+p)*od+j)
    let gp j := gt ((base+p)*(nh*2*hd)+j)
    some (nh.fold (fun h _ dst => hd.fold (fun d _ dst =>
      Function.update dst (p*od+h*hd+d) (ap (h*hd+d)*sigmoid lm (gp (h*2*hd+hd+d)))) dst) dst)) dst

end Operators

section Values
variable {K : Type} [Field K] (lm : Libm K) (tanh : K → K)

def embedding (w : Weight K) (nVocab od id j : Nat) : K := w.element (if w.tensor.dim.getD 0 0 = nVocab then id*od+j else j*nVocab+id)

def normedEntry (eps : K) (n : Nat) (weight x : Nat → K) (j : Nat) : K :=
  x j*(1/lm.sqrt ((∑ i ∈ Finset.range n,x i*x i)/n+eps))*weight j

def biasedEntry (w : Weight K) (od : Nat) (x : Nat → K) (j : Nat) : K := if j < biasWidth w od then x j+w.element j else x j

def headNormedEntry (eps : K) (s : HeadSlices) (weight x : Nat → K) (j : Nat) : K :=
  normedEntry lm eps s.headDim weight (fun d => x (j/s.headDim*s.inStride+d)) (j%s.headDim)

def gatedEntry (hd : Nat) (a gate : Nat → K) (j : Nat) : K := a j*sigmoid lm (gate (j/hd*2*hd+hd+j%hd))

end Values

section Rows
variable {K : Type} [Field K] {lm : Libm K} {tanh : K → K} {w : Weight K} {eps : K} {od : Nat} {call : RowCall K}

def rowOfCall (od : Nat) (call : RowCall K) (p : Nat) : Nat → K := fun j => call.src ((call.base+p)*od+j)

theorem normedEntry_near {n : Nat} {weight x y : Nat → K} (same : ∀ i < n,x i = y i) {j : Nat} (small : j < n) :
    normedEntry lm eps n weight x j = normedEntry lm eps n weight y j := by
  rw [normedEntry,normedEntry,same j small,Finset.sum_congr rfl fun i listed => by rw [same i (Finset.mem_range.mp listed)]]

theorem opEmbed_done {nVocab n : Nat} {tok : Nat → Nat} (wide : 0 < od) (dst : Nat → K)
    (inside : ∀ p < n,if w.tensor.dim.getD 0 0 = nVocab then tok p*od+od ≤ w.tensor.nElement else
      ∀ j < od,j*nVocab+tok p < w.tensor.nElement) :
    RowsDone (opEmbed w nVocab od tok n dst) n od fun p => embedding w nVocab od (tok p) := by
  apply eachRow_done
  intro p below dst
  have fits := inside p below
  by_cases trans : w.tensor.dim.getD 0 0 = nVocab
  · rw [if_pos trans] at fits ⊢
    rw [tensorGetF32Batch,if_neg (by omega)]
    refine congrArg some (splice_congr fun j small => ?_)
    rw [ggufDequantBatch_exact,if_pos small,embedding,if_pos trans]
    rfl
  · rw [if_neg trans] at fits ⊢
    have step : ∀ j ∈ List.range od,∀ dst : Nat → K,
        ((tensorGetF32 w.source w.tensor (j*nVocab+tok p)).map fun x => Function.update dst (p*od+j) x) =
          some (Function.update dst (p*od+j) (embedding w nVocab od (tok p) j)) := by
      intro j listed dst
      rw [tensorGetF32,if_neg (not_le.mpr (fits j (List.mem_range.mp listed))),embedding,if_neg trans]
      rfl
    rw [foldlM_some step,range_update]

theorem opRmsNorm_done (wide : 0 < od) (small : od < 2^31) (narrow : od ≤ w.tensor.dim.getD 0 0) (inside : od ≤ w.tensor.nElement) :
    RowsDone (opRmsNorm lm w eps od call) call.r od fun p => normedEntry lm eps od w.element (rowOfCall od call p) := by
  apply eachRow_done
  intro p _ dst
  obtain ⟨buf,read,elements⟩ := Weight.buffer_some wide inside
  unfold rmsNorm
  rw [i32_of_lt small,if_neg (by omega),if_neg (by omega),Int.toNat_natCast]
  dsimp only
  rw [read,Option.map_some,fold_update_from,squares_eq]
  refine congrArg some (splice_congr fun j small => ?_)
  simp only [Nat.zero_add,elements j small]
  rfl

omit [Field K] in
theorem biasWidth_le (w : Weight K) (od : Nat) : biasWidth w od ≤ od ∧ biasWidth w od ≤ w.tensor.nElement := by
  have small := Nat.mod_le w.tensor.nElement (2^32)
  unfold biasWidth u32
  split <;> omega

theorem opBias_done (wide : 0 < biasWidth w od) : RowsDone (opBias w od call) call.r od fun p => biasedEntry w od (rowOfCall od call p) := by
  apply eachRow_done
  intro p _ dst
  have narrow := biasWidth_le w od
  obtain ⟨buf,read,elements⟩ := Weight.buffer_some wide narrow.2
  unfold biasAdd
  have copied : ∀ i < od,copiedRow od call p dst (p*od+i) = rowOfCall od call p i := by
    intro i small
    rw [copiedRow,splice,if_pos (by omega),Nat.add_sub_cancel_left]
    rfl
  rw [read,Option.map_some,fold_modify_from _ _ fun i x => x+buf i]
  refine congrArg some ?_
  funext k
  by_cases mine : p*od ≤ k ∧ k < p*od+od
  · have place : p*od+(k-p*od) = k := Nat.add_sub_cancel' mine.1
    have own := copied (k-p*od) (by omega)
    rw [place] at own
    unfold biasedEntry
    by_cases low : k < p*od+biasWidth w od
    · rw [splice,splice,if_pos ⟨mine.1,low⟩,if_pos mine,if_pos (by omega),elements _ (by omega),place,own]
    · rw [splice,splice,if_neg (by omega),if_pos mine,if_neg (by omega),own]
  · rw [splice,splice,if_neg (by omega),if_neg mine,copiedRow,splice,if_neg mine]

omit [Field K] in
theorem opBinary_done (f : K → K → K) (base r : Nat) (a b dst : Nat → K) :
    RowsDone (opBinary f od base r a b dst) r od fun p j => f (a ((base+p)*od+j)) (b ((base+p)*od+j)) := by
  apply eachRow_done
  intro p _ dst
  rw [fold_update_from]

omit [Field K] in
theorem opUnary_done {f : Nat → Int → (Nat → K) → Nat → K} {g : Nat → (Nat → K) → Nat → K}
    (works : ∀ base x,f base (i32 od) x = splice x base od (g od fun j => x (base+j)))
    (near : ∀ n x y,(∀ j < n,x j = y j) → ∀ j < n,g n x j = g n y j) :
    RowsDone (opUnary f od call) call.r od fun p => g od (rowOfCall od call p) := by
  apply eachRow_done
  intro p _ dst
  rw [works]
  refine congrArg some ?_
  unfold copiedRow
  rw [splice_splice]
  refine splice_congr fun j small => near od _ _ (fun i below => ?_) j small
  rw [splice,if_pos (by omega),Nat.add_sub_cancel_left]
  rfl

omit [Field K] in
theorem inPlace_works (g : K → K) (small : od < 2^31) (base : Nat) (x : Nat → K) :
    inPlace g base (i32 od) x = splice x base od fun j => g (x (base+j)) := by
  rw [i32_of_lt small]
  exact fold_modify_from od base (fun _ => g) x

theorem opSilu_done (small : od < 2^31) : RowsDone (opSilu lm od call) call.r od fun p j => silu lm.exp (rowOfCall od call p j) :=
  opUnary_done (g:=fun _ x j => silu lm.exp (x j)) (inPlace_works _ small) fun _ _ _ same j small => congrArg _ (same j small)

theorem opGelu_done (small : od < 2^31) : RowsDone (opGelu tanh od call) call.r od fun p j => gelu tanh (rowOfCall od call p j) :=
  opUnary_done (g:=fun _ x j => gelu tanh (x j)) (inPlace_works _ small) fun _ _ _ same j small => congrArg _ (same j small)

theorem softmax_near [LinearOrder K] (exp : K → K) {n : Nat} {x y : Nat → K} (same : ∀ j < n,x j = y j) {j : Nat} (small : j < n) :
    softmax exp x n j = softmax exp y n j := by
  have top := peak_congr (Nat.zero_lt_of_lt small) same
  rw [softmax_at exp x small,softmax_at exp y small,top,same j small]
  congr 1
  exact Finset.sum_congr rfl fun i listed => by rw [same i (Finset.mem_range.mp listed)]

theorem opSoftmax_done [LinearOrder K] (small : od < 2^32) :
    RowsDone (opSoftmax lm od call) call.r od fun p => softmax lm.exp (rowOfCall od call p) od := by
  have back : (i32 od%2^32).toNat = od := by
    unfold i32
    split <;> omega
  exact opUnary_done (g:=fun n x => softmax lm.exp x n) (fun base x => by rw [back]) fun _ _ _ same _ small => softmax_near lm.exp same small

theorem opScale_done (scale : K) : RowsDone (opScale scale od call) call.r od fun p j => rowOfCall od call p j*scale := by
  apply eachRow_done
  intro p _ dst
  rw [fold_update_from]
  rfl

theorem opSoftcap_done (cap : K) : RowsDone (opSoftcap tanh cap od call) call.r od fun p j => tanh (rowOfCall od call p j/cap)*cap := by
  apply eachRow_done
  intro p _ dst
  rw [fold_update_from]
  rfl

theorem opRmsNormHeads_done {s : HeadSlices} (wide : 0 < s.headDim) (inside : s.headDim ≤ w.tensor.nElement) (packed : s.outStride = s.headDim)
    (whole : od = s.heads*s.headDim) : RowsDone (opRmsNormHeads lm w eps s od call) call.r od fun p =>
      headNormedEntry lm eps s w.element (rowOfCall (s.heads*s.inStride) call p) := by
  obtain ⟨buf,read,elements⟩ := Weight.buffer_some wide inside
  unfold opRmsNormHeads
  rw [read]
  apply eachRow_done
  intro p _ dst
  refine congrArg some (fold_splice whole (fun h _ dst => ?_) dst)
  dsimp only
  rw [packed,rmsNormInplace_eq,splice_splice]
  refine splice_congr fun d small => ?_
  have read' : ∀ i < s.headDim,splice dst (p*od+h*s.headDim) s.headDim
      (fun j => call.src ((call.base+p)*(s.heads*s.inStride)+(h*s.inStride+j))) (p*od+h*s.headDim+i) =
      rowOfCall (s.heads*s.inStride) call p (h*s.inStride+i) := by
    intro i below
    rw [splice,if_pos (by omega),Nat.add_sub_cancel_left]
    rfl
  have sums := Finset.sum_congr (rfl : Finset.range s.headDim = _) fun i listed =>
    congrArg (fun x => x*x) (read' i (Finset.mem_range.mp listed))
  rw [headNormedEntry,normedEntry,place_row small,Nat.mul_add_mod_of_lt small,elements d small,sums,read' d small]

theorem opSigmoidGate_done {nh hd : Nat} (whole : od = nh*hd) (base r : Nat) (a gt dst : Nat → K) :
    RowsDone (opSigmoidGate lm nh hd od base r a gt dst) r od fun p =>
      gatedEntry lm hd (fun j => a ((base+p)*od+j)) fun j => gt ((base+p)*(nh*2*hd)+j) := by
  apply eachRow_done
  intro p _ dst
  refine congrArg some (fold_splice whole (fun h _ dst => ?_) dst)
  rw [fold_update_from]
  refine splice_congr fun d small => ?_
  rw [gatedEntry,place_row small,Nat.mul_add_mod_of_lt small]

end Rows

end TinyLlama.Cpu
