import TinyLlama.Cpu.Delta
import TinyLlama.Cpu.Elementwise
import TinyLlama.Cpu.Scan

-- backend/cpu/cpu_op.c: the operators that advance a state from row to row.
namespace TinyLlama.Cpu
open Sweep Cells

section Loops
variable {K S : Type}

def afterRows (next : Nat → S → S) (start : S) (p : Nat) : S := p.fold (fun i _ s => next i s) start

theorem recur_rows (body : Nat → (Nat → K) × S → (Nat → K) × S) (v : Nat → S → Nat → K) (next : Nat → S → S) {r od : Nat}
    (each : ∀ p < r,∀ st,body p st = (splice st.1 (p*od) od (v p st.2),next p st.2)) (dst : Nat → K) (start : S) :
    (r.fold (fun p _ st => body p st) (dst,start)).2 = afterRows next start r ∧
      ∀ p < r,∀ j < od,(r.fold (fun p _ st => body p st) (dst,start)).1 (p*od+j) = v p (afterRows next start p) j := by
  induction r with
  | zero => exact ⟨rfl,fun p none' => absurd none' (Nat.not_lt_zero p)⟩
  | succ r ih =>
    obtain ⟨state,rows⟩ := ih fun p below => each p (by omega)
    rw [Nat.fold_succ,each r (Nat.lt_succ_self r)]
    refine ⟨?_,fun p below j small => ?_⟩
    · rw [afterRows,Nat.fold_succ,state]
      rfl
    · dsimp only
      by_cases last : p = r
      · rw [last,splice,if_pos (by omega),Nat.add_sub_cancel_left,state]
      · have row : (p+1)*od ≤ r*od := Nat.mul_le_mul_right od (by omega)
        rw [Nat.succ_mul] at row
        rw [splice,if_neg (by omega)]
        exact rows p (by omega) j small

theorem afterRows_part {T : Type} (part : S → T) {next : Nat → S → S} {next' : Nat → T → T} (keeps : ∀ p s,part (next p s) = next' p (part s))
    (start : S) (p : Nat) : part (afterRows next start p) = afterRows next' (part start) p := by
  induction p with
  | zero => rfl
  | succ p ih =>
    rw [afterRows,Nat.fold_succ,keeps]
    change next' p (part (afterRows next start p)) = _
    rw [ih,afterRows,afterRows,Nat.fold_succ]

theorem fold_inPlace {n w : Nat} {body : Nat → (Nat → K) → Nat → K} {g : Nat → (Nat → K) → Nat → K} (base : Nat)
    (each : ∀ t < n,∀ out,body t out = splice out (base+t*w) w (g t fun k => out (base+t*w+k))) (out : Nat → K) :
    n.fold (fun t _ out => body t out) out = splice out base (n*w) fun o => g (o/w) (fun k => out (base+o/w*w+k)) (o%w) := by
  induction n with
  | zero => rw [Nat.fold_zero,Nat.zero_mul,splice_none]
  | succ n ih =>
    rw [Nat.fold_succ,ih fun t below => each t (by omega),each n (Nat.lt_succ_self n),Nat.succ_mul,← splice_append]
    refine splice_congr fun k small => ?_
    have fresh : (fun k => splice out base (n*w) (fun o => g (o/w) (fun k => out (base+o/w*w+k)) (o%w)) (base+n*w+k)) =
        fun k => out (base+n*w+k) := funext fun k => by rw [splice,if_neg (by omega)]
    rw [fresh,place_row small,Nat.mul_add_mod_of_lt small]

end Loops

section Convolutions
variable {K : Type} [Field K] {ck od : Nat} {cw : Nat → K}

theorem opSsmConv_rows (call : ConvCall K) (state : Nat → K) :
    (opSsmConv ck od cw call state).2 = afterRows (fun p => shiftState od ck (ssmRow od call p)) state call.r ∧
      ∀ p < call.r,∀ j < od,(opSsmConv ck od cw call state).1 (p*od+j) =
        tapSum od ck cw (afterRows (fun p => shiftState od ck (ssmRow od call p)) state p) (ssmRow od call p) j := by
  refine recur_rows _ (fun p s => tapSum od ck cw s (ssmRow od call p)) _ (fun p _ st => ?_) _ _
  have copied : ∀ c < od,splice st.1 (p*od) od (fun j => call.src ((call.base+p)*od+j)) (p*od+c) = ssmRow od call p c := by
    intro c small
    rw [splice,if_pos (by omega),Nat.add_sub_cancel_left]
    rfl
  dsimp only
  rw [causalConv1dStep_eq (.inl rfl),shiftState_congr copied,splice_splice]
  congr 1
  exact splice_congr fun c small => tapSum_congr (copied c small)

variable {exp : K → K} {s : Mamba2Shape} {bias : Option (Nat → K)}

theorem opMamba2Conv_rows (proper : s.Proper) (call : ConvCall K) (state : Nat → K) :
    ∃ dst,opMamba2Conv exp s s.convDim cw bias call state =
        some (dst,afterRows (fun p => shiftState s.convDim s.ck (mamba2Raw s call p)) state call.r) ∧
      ∀ p < call.r,∀ j < s.convDim,dst (p*s.convDim+j) =
        silu exp (biased bias (tapSum s.convDim s.ck cw (afterRows (fun p => shiftState s.convDim s.ck (mamba2Raw s call p)) state p)
          (mamba2Raw s call p) j) j) := by
  obtain ⟨taps,inner,groups,width⟩ := proper
  have rows := recur_rows (fun p st => (s.convDim.fold (fun ch _ dst => Function.update dst (p*s.convDim+ch)
      (silu exp (biased bias (tapSum s.convDim s.ck cw st.2 (mamba2Raw s call p) ch) ch))) st.1,shiftState s.convDim s.ck (mamba2Raw s call p) st.2))
    (fun p st j => silu exp (biased bias (tapSum s.convDim s.ck cw st (mamba2Raw s call p) j) j))
    (fun p => shiftState s.convDim s.ck (mamba2Raw s call p)) (r:=call.r) (fun p _ st => by rw [fold_update_from]) call.dst state
  refine ⟨_,?_,rows.2⟩
  unfold opMamba2Conv
  rw [if_neg (by omega),if_neg (by simp),← rows.1]
  rfl

end Convolutions

section Scans
variable {K : Type} [Field K] [LinearOrder K] {lm : Libm K} {s : ScanShape} {w : ScanWeights K} {eps : K}

def scanNext (lm : Libm K) (s : ScanShape) (w : ScanWeights K) (row : ScanInput K) (state : Nat → K) : Nat → K :=
  splice state 0 (s.inner*s.ds) fun o => advanced w row lm s state (o/s.ds) (o%s.ds)

def scanOut (lm : Libm K) (s : ScanShape) (w : ScanWeights K) (eps : K) (row : ScanInput K) (state : Nat → K) : Nat → K :=
  normed lm s w.nw eps (gated w row lm s state)

structure SameScan (s : ScanShape) (u v : ScanInput K) : Prop where
  x : ∀ ii < s.inner,u.x ii = v.x ii
  b : ∀ g < s.ng,∀ i < s.ds,u.b g i = v.b g i
  c : ∀ g < s.ng,∀ i < s.ds,u.c g i = v.c g i
  z : ∀ ii < s.inner,u.z ii = v.z ii
  dt : ∀ h < s.nh,u.dt h = v.dt h

section Same
variable {x y : ScanInput K} {state : Nat → K}

theorem channel_head (proper : s.Proper) {ii : Nat} (inside : ii < s.inner) : ii/s.hd < s.nh ∧ ii/s.hd/s.headsPerGroup < s.ng := by
  obtain ⟨_,dims,_,_,split,_⟩ := proper
  have head : ii/s.hd < s.nh := (Nat.div_lt_iff_lt_mul (Nat.pos_of_ne_zero dims)).mpr inside
  have whole : s.ng*s.headsPerGroup = s.nh := Nat.mul_div_cancel' (Nat.dvd_of_mod_eq_zero split)
  refine ⟨head,Nat.div_lt_of_lt_mul ?_⟩
  rwa [Nat.mul_comm,whole]

theorem advanced_same (proper : s.Proper) (same : SameScan s x y) {ii i : Nat} (inside : ii < s.inner) (cell : i < s.ds) :
    advanced w x lm s state ii i = advanced w y lm s state ii i := by
  obtain ⟨head,group⟩ := channel_head proper inside
  rw [advanced,advanced,timeStep,timeStep,same.dt _ head,same.b _ group i cell,same.x ii inside]

theorem scanNext_same (proper : s.Proper) (same : SameScan s x y) : scanNext lm s w x state = scanNext lm s w y state := by
  refine splice_congr fun o inside => ?_
  have cells := Nat.pos_of_ne_zero proper.2.2.1
  exact advanced_same proper same ((Nat.div_lt_iff_lt_mul cells).mpr inside) (Nat.mod_lt o cells)

theorem scanOut_same (proper : s.Proper) (same : SameScan s x y) {j : Nat} (inside : j < s.inner) :
    scanOut lm s w eps x state j = scanOut lm s w eps y state j := by
  refine normed_congr proper w.nw eps (fun ii inside => ?_) inside
  obtain ⟨_,group⟩ := channel_head proper inside
  have cells : ∑ i ∈ Finset.range s.ds,advanced w x lm s state ii i*x.c (ii/s.hd/s.headsPerGroup) i =
      ∑ i ∈ Finset.range s.ds,advanced w y lm s state ii i*y.c (ii/s.hd/s.headsPerGroup) i := by
    refine Finset.sum_congr rfl fun i listed => ?_
    have cell := Finset.mem_range.mp listed
    rw [advanced_same proper same inside cell,same.c _ group i cell]
  rw [gated,gated,cells,same.x ii inside,same.z ii inside]

end Same

theorem opMamba2Scan_rows (proper : s.Proper) (exact' : s.Exact) (call : ScanCall K) (state : Nat → K) :
    ∃ dst,opMamba2Scan lm s s.dInner w eps call state = some (dst,afterRows (fun p => scanNext lm s w (scanInput s call p)) state call.r) ∧
      ∀ p < call.r,∀ j < s.inner,dst (p*s.inner+j) =
        scanOut lm s w eps (scanInput s call p) (afterRows (fun p => scanNext lm s w (scanInput s call p)) state p) j := by
  have rows := recur_rows (fun p st => (groupNorm lm s w.nw eps (p*s.dInner) (scanRow lm s w call p st).1,(scanRow lm s w call p st).2))
    (fun p => scanOut lm s w eps (scanInput s call p)) (fun p => scanNext lm s w (scanInput s call p)) (r:=call.r) (fun p _ st => by
      rw [scanRow_eq w exact',exact'.inner,groupNorm_eq proper exact',splice_splice]
      refine congrArg₂ Prod.mk (splice_congr fun ii inside => normed_congr proper w.nw eps (fun jj small => ?_) inside) rfl
      dsimp only
      rw [splice,if_pos (by omega),Nat.add_sub_cancel_left]) call.dst state
  obtain ⟨heads,dims,cells,groups,split,width⟩ := proper
  refine ⟨_,?_,rows.2⟩
  rw [opMamba2Scan,if_neg (by omega),if_neg (by omega),← rows.1]

end Scans

structure DeltaShape where
  nV : Nat
  nK : Nat
  hd : Nat
deriving Repr,DecidableEq

namespace DeltaShape

def keyDim (s : DeltaShape) : Nat := u32 (s.nK*s.hd)
def valDim (s : DeltaShape) : Nat := s.nV*s.hd
def stride (s : DeltaShape) : Nat := 2*s.keyDim+s.valDim

end DeltaShape

structure DeltaWeights (K : Type) where
  aLog : Nat → K
  dtBias : Nat → K
  norm : Option (Nat → K)

structure DeltaCall (K : Type) where
  base : Nat
  r : Nat
  fused : Nat → K
  alpha : Nat → K
  beta : Nat → K
  dst : Nat → K

section DeltaOperator
variable {K : Type} [Field K] (lm : Libm K)

def l2NormRows (x : Nat → K) (base nRows dim : Nat) (eps : K) : Nat → K :=
  nRows.fold (fun r _ x =>
    let row := base+r*dim
    let inv := 1/lm.sqrt (squares x row dim+eps)
    dim.fold (fun i _ x => Function.update x (row+i) (x (row+i)*inv)) x) x

-- The private copy of a row: queries and keys are normed, and the queries scaled.
def deltaQkv (s : DeltaShape) (eps : K) (fp : Nat → K) : Nat → K :=
  let qkv := splice (fun _ => 0) 0 s.stride fp
  let qkv := l2NormRows lm qkv 0 s.nK s.hd eps
  let qkv := l2NormRows lm qkv s.keyDim s.nK s.hd eps
  s.keyDim.fold (fun i _ qkv => Function.update qkv (0+i) (qkv (0+i)*(1/lm.sqrt s.hd))) qkv

def deltaNorm (s : DeltaShape) (norm : Option (Nat → K)) (eps : K) (dp : Nat) (dst : Nat → K) : Nat → K :=
  match norm with
  | none => dst
  | some nw => s.nV.fold (fun grp _ dst => rmsNormInplace lm dst (dp+grp*s.hd) nw s.hd eps) dst

variable [LinearOrder K]

-- One row: the output, and the state with the scratch. 2*key_dim is a u32 in the code, and below 2^32
-- wherever the fused row, which is longer, has a u32 width.
def deltaRow (s : DeltaShape) (w : DeltaWeights K) (eps : K) (call : DeltaCall K) (p : Nat) (st : (Nat → K) × (Nat → K) × (Nat → K)) :
    (Nat → K) × (Nat → K) × (Nat → K) :=
  let ap i := call.alpha ((call.base+p)*s.nV+i)
  let bp i := call.beta ((call.base+p)*s.nV+i)
  let dp := p*s.valDim
  let qkv := deltaQkv lm s eps fun j => call.fused ((call.base+p)*s.stride+j)
  let m := gatedDeltaStep s.nV s.nK s.hd ⟨qkv,fun i => qkv (s.keyDim+i),fun i => qkv (2*s.keyDim+i),
    fun i => lm.exp (w.aLog i*softplus lm (ap i+w.dtBias i)),fun i => sigmoid lm (bp i)⟩ ⟨st.2.1,st.2.2,fun j => st.1 (dp+j)⟩
  (deltaNorm lm s w.norm eps dp (splice st.1 dp s.valDim m.output),m.state,m.kvMem)

def opSsmDelta (s : DeltaShape) (od : Nat) (w : DeltaWeights K) (eps : K) (call : DeltaCall K) (state : Nat → K) :
    Option ((Nat → K) × (Nat → K)) :=
  if od ≠ u32 s.valDim then none
  else
    let out := call.r.fold (fun p _ st => deltaRow lm s w eps call p st) (call.dst,state,fun _ => 0)
    some (out.1,out.2.1)

end DeltaOperator

section DeltaValues
variable {K : Type} [Field K] (lm : Libm K)

def l2Entry (eps : K) (dim : Nat) (x : Nat → K) (i : Nat) : K :=
  x i*(1/lm.sqrt ((∑ t ∈ Finset.range dim,x (i/dim*dim+t)*x (i/dim*dim+t))+eps))

def deltaNext (s : DeltaShape) (x : DeltaInput K) (state : Nat → K) : Nat → K :=
  splice state 0 (s.nV*(s.hd*s.hd)) fun o =>
    updated s.nK s.hd x (o/(s.hd*s.hd)) ⟨state,fun _ => 0,fun _ => 0⟩ (o%(s.hd*s.hd)/s.hd) (o%(s.hd*s.hd)%s.hd)

def deltaHeads (s : DeltaShape) (x : DeltaInput K) (state : Nat → K) (j : Nat) : K :=
  readout s.nK s.hd x (j/s.hd) ⟨state,fun _ => 0,fun _ => 0⟩ (j%s.hd)

def deltaMem (s : DeltaShape) (x : DeltaInput K) (state mem : Nat → K) : Nat → K :=
  splice mem 0 s.valDim fun j => readback s.nK s.hd x (j/s.hd) ⟨state,fun _ => 0,fun _ => 0⟩ (j%s.hd)

def deltaOut (s : DeltaShape) (norm : Option (Nat → K)) (eps : K) (x : DeltaInput K) (state : Nat → K) (j : Nat) : K :=
  match norm with
  | none => deltaHeads s x state j
  | some nw => normedEntry lm eps s.hd nw (fun d => deltaHeads s x state (j/s.hd*s.hd+d)) (j%s.hd)

-- What a row of the projections feeds the recurrence.
def deltaInput [LinearOrder K] (s : DeltaShape) (w : DeltaWeights K) (eps : K) (fused alpha beta : Nat → K) : DeltaInput K where
  q i := l2Entry lm eps s.hd fused i*(1/lm.sqrt s.hd)
  k i := l2Entry lm eps s.hd (fun i => fused (s.keyDim+i)) i
  v i := fused (2*s.keyDim+i)
  g h := lm.exp (w.aLog h*softplus lm (alpha h+w.dtBias h))
  beta h := sigmoid lm (beta h)

structure SameInput (s : DeltaShape) (x y : DeltaInput K) : Prop where
  q : ∀ i < s.nK*s.hd,x.q i = y.q i
  k : ∀ i < s.nK*s.hd,x.k i = y.k i
  v : ∀ i < s.nV*s.hd,x.v i = y.v i
  g : ∀ h < s.nV,x.g h = y.g h
  beta : ∀ h < s.nV,x.beta h = y.beta h

end DeltaValues

section DeltaRows
variable {K : Type} [Field K] {lm : Libm K} {s : DeltaShape} {eps : K} {x y : DeltaInput K}

theorem readback_same (some' : 0 < s.nK) (same : SameInput s x y) {grp : Nat} (head : grp < s.nV) {m m' : DeltaMem K}
    (block : ∀ o < s.hd*s.hd,m.state (grp*(s.hd*s.hd)+o) = m'.state (grp*(s.hd*s.hd)+o)) {j : Nat} (column : j < s.hd) :
    (∀ i < s.hd,decayed s.hd x grp m i j = decayed s.hd y grp m' i j) ∧ readback s.nK s.hd x grp m j = readback s.nK s.hd y grp m' j := by
  have kept : ∀ i < s.hd,decayed s.hd x grp m i j = decayed s.hd y grp m' i j := by
    intro i row
    have inside := row_below row column
    rw [decayed,decayed,same.g grp head,Nat.add_assoc,block _ inside]
  have key : keyHead s.nK grp < s.nK := by
    rw [keyHead,if_pos (Nat.pos_iff_ne_zero.mp some')]
    exact Nat.mod_lt _ some'
  refine ⟨kept,Finset.sum_congr rfl fun i listed => ?_⟩
  have row := Finset.mem_range.mp listed
  rw [kept i row,same.k _ (row_below key row)]

theorem updated_same (some' : 0 < s.nK) (same : SameInput s x y) {grp : Nat} (head : grp < s.nV) {m m' : DeltaMem K}
    (block : ∀ o < s.hd*s.hd,m.state (grp*(s.hd*s.hd)+o) = m'.state (grp*(s.hd*s.hd)+o)) {i j : Nat} (row : i < s.hd) (column : j < s.hd) :
    updated s.nK s.hd x grp m i j = updated s.nK s.hd y grp m' i j := by
  have key : keyHead s.nK grp < s.nK := by
    rw [keyHead,if_pos (Nat.pos_iff_ne_zero.mp some')]
    exact Nat.mod_lt _ some'
  obtain ⟨kept,back⟩ := readback_same some' same head block column
  rw [updated,updated,kept i row,same.k _ (row_below key row),back,same.v _ (row_below head column),same.beta grp head]

theorem readout_same (some' : 0 < s.nK) (same : SameInput s x y) {grp : Nat} (head : grp < s.nV) {m m' : DeltaMem K}
    (block : ∀ o < s.hd*s.hd,m.state (grp*(s.hd*s.hd)+o) = m'.state (grp*(s.hd*s.hd)+o)) {j : Nat} (column : j < s.hd) :
    readout s.nK s.hd x grp m j = readout s.nK s.hd y grp m' j := by
  have key : keyHead s.nK grp < s.nK := by
    rw [keyHead,if_pos (Nat.pos_iff_ne_zero.mp some')]
    exact Nat.mod_lt _ some'
  refine Finset.sum_congr rfl fun i listed => ?_
  have row := Finset.mem_range.mp listed
  rw [updated_same some' same head block row column,same.q _ (row_below key row)]

theorem gatedDeltaStep_closed (some' : 0 < s.nK) (same : SameInput s x y) (m : DeltaMem K) :
    (gatedDeltaStep s.nV s.nK s.hd x m).state = deltaNext s y m.state ∧
      (gatedDeltaStep s.nV s.nK s.hd x m).kvMem = deltaMem s y m.state m.kvMem ∧
      (gatedDeltaStep s.nV s.nK s.hd x m).output = splice m.output 0 s.valDim (deltaHeads s y m.state) := by
  have heads : ∀ n ≤ s.nV,(n.fold (fun grp _ m => gatedDeltaHead s.nK s.hd x grp m) m).state =
      splice m.state 0 (n*(s.hd*s.hd)) (fun o =>
        updated s.nK s.hd y (o/(s.hd*s.hd)) ⟨m.state,fun _ => 0,fun _ => 0⟩ (o%(s.hd*s.hd)/s.hd) (o%(s.hd*s.hd)%s.hd)) ∧
      (n.fold (fun grp _ m => gatedDeltaHead s.nK s.hd x grp m) m).kvMem = splice m.kvMem 0 (n*s.hd) (fun j =>
        readback s.nK s.hd y (j/s.hd) ⟨m.state,fun _ => 0,fun _ => 0⟩ (j%s.hd)) ∧
      (n.fold (fun grp _ m => gatedDeltaHead s.nK s.hd x grp m) m).output = splice m.output 0 (n*s.hd) (deltaHeads s y m.state) := by
    intro n
    induction n with
    | zero =>
      intro _
      rw [Nat.zero_mul,Nat.zero_mul,splice_none,splice_none,splice_none]
      exact ⟨rfl,rfl,rfl⟩
    | succ n ih =>
      intro upto
      obtain ⟨state,mem,output⟩ := ih (by omega)
      rw [Nat.fold_succ,gatedDeltaHead_eq]
      dsimp only
      rw [state,mem,output,Nat.succ_mul,Nat.succ_mul,← splice_append,← splice_append,← splice_append,Nat.zero_add,Nat.zero_add]
      have block : ∀ o < s.hd*s.hd,(n.fold (fun grp _ m => gatedDeltaHead s.nK s.hd x grp m) m).state (n*(s.hd*s.hd)+o) =
          (⟨m.state,fun _ => 0,fun _ => 0⟩ : DeltaMem K).state (n*(s.hd*s.hd)+o) := by
        intro o _
        rw [state,splice,if_neg (by omega)]
      refine ⟨splice_congr fun o inside => ?_,splice_congr fun j column => ?_,splice_congr fun j column => ?_⟩
      · have wide : 0 < s.hd := Nat.pos_of_ne_zero fun none' => by rw [none'] at inside; omega
        rw [place_row inside,Nat.mul_add_mod_of_lt inside]
        exact updated_same some' same upto block (Nat.div_lt_of_lt_mul inside) (Nat.mod_lt _ wide)
      · rw [place_row column,Nat.mul_add_mod_of_lt column]
        exact (readback_same some' same upto block column).2
      · rw [deltaHeads,place_row column,Nat.mul_add_mod_of_lt column]
        exact readout_same some' same upto block column
  exact heads s.nV le_rfl

theorem l2NormRows_eq (x : Nat → K) (base nRows dim : Nat) :
    l2NormRows lm x base nRows dim eps = splice x base (nRows*dim) (l2Entry lm eps dim fun i => x (base+i)) := by
  refine (fold_inPlace (w:=dim) base (g:=fun _ row i => row i*(1/lm.sqrt ((∑ t ∈ Finset.range dim,row t*row t)+eps))) (fun t _ out => ?_) x).trans ?_
  · dsimp only
    rw [squares_eq]
    exact fold_modify_from dim (base+t*dim) (fun _ c => c*(1/lm.sqrt ((∑ i ∈ Finset.range dim,out (base+t*dim+i)*out (base+t*dim+i))+eps))) out
  · refine splice_congr fun o _ => ?_
    dsimp only [l2Entry]
    rw [Nat.add_assoc,Nat.div_add_mod' o dim]
    simp only [Nat.add_assoc]

theorem l2Entry_near {dim n : Nat} {x y : Nat → K} (same : ∀ i < n*dim,x i = y i) {i : Nat} (inside : i < n*dim) :
    l2Entry lm eps dim x i = l2Entry lm eps dim y i := by
  have wide : 0 < dim := Nat.pos_of_ne_zero fun none' => by rw [none'] at inside; omega
  have group : i/dim < n := (Nat.div_lt_iff_lt_mul wide).mpr inside
  rw [l2Entry,l2Entry,same i inside,Finset.sum_congr rfl fun t listed => by
    rw [same _ (row_below group (Finset.mem_range.mp listed))]]

theorem deltaQkv_entries (fits : s.nK*s.hd < 2^32) (fp : Nat → K) :
    (∀ i < s.nK*s.hd,deltaQkv lm s eps fp i = l2Entry lm eps s.hd fp i*(1/lm.sqrt s.hd)) ∧
      (∀ i < s.nK*s.hd,deltaQkv lm s eps fp (s.keyDim+i) = l2Entry lm eps s.hd (fun i => fp (s.keyDim+i)) i) ∧
      ∀ i < s.nV*s.hd,deltaQkv lm s eps fp (2*s.keyDim+i) = fp (2*s.keyDim+i) := by
  have keys : s.keyDim = s.nK*s.hd := u32_of_lt fits
  have whole : s.stride = 2*s.keyDim+s.nV*s.hd := rfl
  have copied : ∀ i < s.stride,splice (fun _ => 0) 0 s.stride fp i = fp i := by
    intro i inside
    rw [splice,if_pos (by omega),Nat.sub_zero]
  unfold deltaQkv
  rw [fold_modify_from s.keyDim 0 fun _ c => c*(1/lm.sqrt s.hd),l2NormRows_eq,l2NormRows_eq,← keys]
  refine ⟨fun i inside => ?_,fun i inside => ?_,fun i inside => ?_⟩
  · rw [splice,if_pos (by omega),splice,if_neg (by omega),splice,if_pos (by omega),Nat.sub_zero,Nat.zero_add,Nat.sub_zero]
    congr 1
    refine l2Entry_near (n:=s.nK) (fun i inside => ?_) (keys ▸ inside)
    rw [Nat.zero_add,copied i (by omega)]
  · rw [splice,if_neg (by omega),splice,if_pos (by omega),Nat.add_sub_cancel_left]
    refine l2Entry_near (n:=s.nK) (fun i inside => ?_) (keys ▸ inside)
    rw [splice,if_neg (by omega),copied _ (by omega)]
  · rw [splice,if_neg (by omega),splice,if_neg (by omega),splice,if_neg (by omega),copied _ (by omega)]

theorem deltaNorm_eq (norm : Option (Nat → K)) (dp : Nat) (dst state : Nat → K) (x : DeltaInput K) :
    deltaNorm lm s norm eps dp (splice dst dp s.valDim (deltaHeads s x state)) = splice dst dp s.valDim (deltaOut lm s norm eps x state) := by
  cases norm with
  | none => rfl
  | some nw =>
    refine (fold_inPlace (w:=s.hd) dp (g:=fun _ => normedEntry lm eps s.hd nw) (fun t _ out => rmsNormInplace_eq lm out _ nw s.hd eps) _).trans ?_
    change splice _ dp s.valDim _ = _
    rw [splice_splice]
    refine splice_congr fun o inside => ?_
    have wide : 0 < s.hd := Nat.pos_of_ne_zero fun none' => by
      rw [DeltaShape.valDim,none'] at inside
      omega
    have group : o/s.hd < s.nV := (Nat.div_lt_iff_lt_mul wide).mpr inside
    have read : ∀ d < s.hd,splice dst dp s.valDim (deltaHeads s x state) (dp+o/s.hd*s.hd+d) = deltaHeads s x state (o/s.hd*s.hd+d) := by
      intro d small
      have place : o/s.hd*s.hd+d < s.valDim := row_below group small
      rw [splice,if_pos (by omega),Nat.add_assoc,Nat.add_sub_cancel_left]
    have sums := Finset.sum_congr (rfl : Finset.range s.hd = _) fun d listed =>
      congrArg (fun x => x*x) (read d (Finset.mem_range.mp listed))
    rw [deltaOut,normedEntry,normedEntry,sums,read _ (Nat.mod_lt o wide)]

variable [LinearOrder K] {w : DeltaWeights K}

def rowInput (lm : Libm K) (s : DeltaShape) (w : DeltaWeights K) (eps : K) (call : DeltaCall K) (p : Nat) : DeltaInput K :=
  deltaInput lm s w eps (fun j => call.fused ((call.base+p)*s.stride+j)) (fun i => call.alpha ((call.base+p)*s.nV+i))
    fun i => call.beta ((call.base+p)*s.nV+i)

theorem deltaInput_same (fits : s.nK*s.hd < 2^32) {fused fused' alpha alpha' beta beta' : Nat → K} (rows : ∀ i < s.stride,fused i = fused' i)
    (rates : ∀ h < s.nV,alpha h = alpha' h ∧ beta h = beta' h) :
    SameInput s (deltaInput lm s w eps fused alpha beta) (deltaInput lm s w eps fused' alpha' beta') := by
  have keys : s.keyDim = s.nK*s.hd := u32_of_lt fits
  have whole : s.stride = 2*s.keyDim+s.nV*s.hd := rfl
  refine ⟨fun i inside => ?_,fun i inside => ?_,fun i inside => rows _ (by omega),fun h head => ?_,fun h head => ?_⟩
  · exact congrArg (· * _) (l2Entry_near (fun i inside => rows i (by omega)) inside)
  · exact l2Entry_near (fun i inside => rows _ (by omega)) inside
  · exact congrArg (fun a => lm.exp (w.aLog h*softplus lm (a+w.dtBias h))) (rates h head).1
  · exact congrArg (sigmoid lm) (rates h head).2

omit [LinearOrder K] in
theorem deltaNext_same (some' : 0 < s.nK) (same : SameInput s x y) (state : Nat → K) : deltaNext s x state = deltaNext s y state := by
  refine splice_congr fun o inside => ?_
  have wide : 0 < s.hd := Nat.pos_of_ne_zero fun none' => by simp [none'] at inside
  have head : o/(s.hd*s.hd) < s.nV := (Nat.div_lt_iff_lt_mul (Nat.mul_pos wide wide)).mpr inside
  have cell := Nat.mod_lt o (Nat.mul_pos wide wide)
  exact updated_same some' same head (fun _ _ => rfl) (Nat.div_lt_of_lt_mul cell) (Nat.mod_lt _ wide)

omit [LinearOrder K] in
theorem deltaOut_same (some' : 0 < s.nK) (same : SameInput s x y) (norm : Option (Nat → K)) (state : Nat → K) {j : Nat} (inside : j < s.valDim) :
    deltaOut lm s norm eps x state j = deltaOut lm s norm eps y state j := by
  have wide : 0 < s.hd := Nat.pos_of_ne_zero fun none' => by simp [DeltaShape.valDim,none'] at inside
  have heads : ∀ j < s.valDim,deltaHeads s x state j = deltaHeads s y state j := fun j inside =>
    readout_same some' same ((Nat.div_lt_iff_lt_mul wide).mpr inside) (fun _ _ => rfl) (Nat.mod_lt j wide)
  cases norm with
  | none => exact heads j inside
  | some nw =>
    have head : j/s.hd < s.nV := (Nat.div_lt_iff_lt_mul wide).mpr inside
    exact normedEntry_near (fun d small => heads _ (row_below head small)) (Nat.mod_lt j wide)

theorem deltaRow_eq (some' : 0 < s.nK) (fits : s.nK*s.hd < 2^32) (call : DeltaCall K) (p : Nat) (st : (Nat → K) × (Nat → K) × (Nat → K)) :
    deltaRow lm s w eps call p st = (splice st.1 (p*s.valDim) s.valDim (deltaOut lm s w.norm eps (rowInput lm s w eps call p) st.2.1),
      deltaNext s (rowInput lm s w eps call p) st.2.1,deltaMem s (rowInput lm s w eps call p) st.2.1 st.2.2) := by
  have entries := @deltaQkv_entries K _ lm s eps fits fun j => call.fused ((call.base+p)*s.stride+j)
  unfold deltaRow
  dsimp only
  generalize deltaQkv lm s eps (fun j => call.fused ((call.base+p)*s.stride+j)) = qkv at entries ⊢
  obtain ⟨q,k,v⟩ := entries
  have same : SameInput s ⟨qkv,fun i => qkv (s.keyDim+i),fun i => qkv (2*s.keyDim+i),
      fun i => lm.exp (w.aLog i*softplus lm (call.alpha ((call.base+p)*s.nV+i)+w.dtBias i)),
      fun i => sigmoid lm (call.beta ((call.base+p)*s.nV+i))⟩ (rowInput lm s w eps call p) :=
    ⟨q,k,v,fun _ _ => rfl,fun _ _ => rfl⟩
  obtain ⟨state,mem,output⟩ := gatedDeltaStep_closed some' same ⟨st.2.1,st.2.2,fun j => st.1 (p*s.valDim+j)⟩
  rw [state,mem,output]
  refine congrArg₂ Prod.mk ?_ rfl
  have written : splice st.1 (p*s.valDim) s.valDim
      (splice (fun j => st.1 (p*s.valDim+j)) 0 s.valDim (deltaHeads s (rowInput lm s w eps call p) st.2.1)) =
      splice st.1 (p*s.valDim) s.valDim (deltaHeads s (rowInput lm s w eps call p) st.2.1) := by
    refine splice_congr fun j inside => ?_
    rw [splice,if_pos (by omega),Nat.sub_zero]
  rw [written,deltaNorm_eq]

theorem opSsmDelta_rows (some' : 0 < s.nK) (fits : s.nK*s.hd < 2^32) (narrow : s.valDim < 2^32) (call : DeltaCall K) (state : Nat → K) :
    ∃ dst,opSsmDelta lm s s.valDim w eps call state = some (dst,afterRows (fun p => deltaNext s (rowInput lm s w eps call p)) state call.r) ∧
      ∀ p < call.r,∀ j < s.valDim,dst (p*s.valDim+j) =
        deltaOut lm s w.norm eps (rowInput lm s w eps call p) (afterRows (fun p => deltaNext s (rowInput lm s w eps call p)) state p) j := by
  let next (p : Nat) (st : (Nat → K) × (Nat → K)) : (Nat → K) × (Nat → K) :=
    (deltaNext s (rowInput lm s w eps call p) st.1,deltaMem s (rowInput lm s w eps call p) st.1 st.2)
  obtain ⟨last,rows⟩ := recur_rows (deltaRow lm s w eps call) (fun p st => deltaOut lm s w.norm eps (rowInput lm s w eps call p) st.1) next
    (r:=call.r) (fun p _ st => deltaRow_eq some' fits call p st) call.dst (state,fun _ => 0)
  have states (p : Nat) : (afterRows next (state,fun _ => 0) p).1 = afterRows (fun p => deltaNext s (rowInput lm s w eps call p)) state p :=
    afterRows_part Prod.fst (fun _ _ => rfl) _ p
  refine ⟨(call.r.fold (fun p _ st => deltaRow lm s w eps call p st) (call.dst,state,fun _ => 0)).1,?_,fun p below j small => ?_⟩
  · unfold opSsmDelta
    rw [u32_of_lt narrow,if_neg (by simp)]
    dsimp only
    rw [last,states]
  · rw [rows p below j small,states]

end DeltaRows

end TinyLlama.Cpu
