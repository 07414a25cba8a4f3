import TinyLlama.Cpu.Attention

namespace TinyLlama.Cpu
open Quants Simd Sweep Softmax

section Cells
variable {K : Type} {c : AttnConfig} {cap hs : Nat}

-- Dimension d of position s of head h.
def cell (c : AttnConfig) (cap h s d : Nat) : Nat := (h*cap+s)*c.kvHeadDim+d

theorem cell_row {h s h' s' d : Nat} (low : s < cap) (low' : s' < cap) (small : d < c.kvHeadDim) :
    cell c cap h' s' 0 ≤ cell c cap h s d ∧ cell c cap h s d < cell c cap h' s' 0+c.kvHeadDim ↔ h' = h ∧ s' = s := by
  unfold cell
  rw [Nat.add_zero,row_inside small]
  constructor
  · intro same
    exact row_inj low' low same
  · rintro ⟨rfl,rfl⟩
    rfl

-- The head stride as the code multiplies with it.
def Strides (c : AttnConfig) (cap hs : Nat) : Prop := ∀ h < c.nKvHead,h*hs = h*(cap*c.kvHeadDim)

theorem cell_place (strides : Strides c cap hs) {h : Nat} (head : h < c.nKvHead) (s d : Nat) :
    h*hs+s*c.kvHeadDim+d = cell c cap h s d := by
  rw [strides h head,cell,Nat.add_mul,Nat.mul_assoc]

theorem kvRow_cell (strides : Strides c cap hs) {pos i h s d : Nat} (row : pos+i < cap) (head : h < c.nKvHead) (low : s < cap)
    (small : d < c.kvHeadDim) (src m : Nat → K) : kvRow c hs pos i src m (cell c cap h s d) =
      if s = pos+i then src (i*c.kvDim+h*c.kvHeadDim+d) else m (cell c cap h s d) := by
  have heads : ∀ n ≤ c.nKvHead,n.fold (fun h _ m =>
      splice m (h*hs+(pos+i)*c.kvHeadDim) c.kvHeadDim fun d => src (i*c.kvDim+h*c.kvHeadDim+d)) m (cell c cap h s d) =
      if h < n ∧ s = pos+i then src (i*c.kvDim+h*c.kvHeadDim+d) else m (cell c cap h s d) := by
    intro n
    induction n with
    | zero =>
      intro _
      rw [Nat.fold_zero,if_neg (by omega)]
    | succ n ih =>
      intro up
      have place := cell_place strides (h:=n) (by omega) (pos+i) 0
      rw [Nat.add_zero] at place
      rw [Nat.fold_succ,splice,place]
      by_cases here : n = h ∧ pos+i = s
      · obtain ⟨rfl,rfl⟩ := here
        rw [if_pos ((cell_row low row small).mpr ⟨rfl,rfl⟩),if_pos (by omega)]
        congr 1
        simp only [cell]
        omega
      · rw [if_neg fun inside => here ((cell_row low row small).mp inside),ih (by omega)]
        refine if_congr ?_ rfl rfl
        omega
  rw [kvRow,heads c.nKvHead le_rfl]
  refine if_congr ?_ rfl rfl
  exact and_iff_right head

theorem kvWrite_cell (strides : Strides c cap hs) {pos n h s d : Nat} (fits : pos+n ≤ cap) (head : h < c.nKvHead) (low : s < cap)
    (small : d < c.kvHeadDim) (src m : Nat → K) : kvWrite c hs pos n src m (cell c cap h s d) =
      if pos ≤ s ∧ s < pos+n then src ((s-pos)*c.kvDim+h*c.kvHeadDim+d) else m (cell c cap h s d) := by
  induction n with
  | zero => rw [kvWrite,Nat.fold_zero,if_neg (by omega)]
  | succ n ih =>
    have before := ih (by omega)
    rw [kvWrite] at before ⊢
    rw [Nat.fold_succ,kvRow_cell strides (by omega) head low small,before]
    by_cases last : s = pos+n
    · rw [if_pos last,if_pos (by omega),last,Nat.add_sub_cancel_left]
    · rw [if_neg last]
      refine if_congr ?_ rfl rfl
      omega

theorem kvRow_last {pos i a h0 : Nat} {src m : Nat → K} {x : K} (head : h0 < c.nKvHead)
    (inside : h0*hs+(pos+i)*c.kvHeadDim ≤ a ∧ a < h0*hs+(pos+i)*c.kvHeadDim+c.kvHeadDim)
    (values : ∀ h,h0 ≤ h → h < c.nKvHead → ∀ d < c.kvHeadDim,src (i*c.kvDim+h*c.kvHeadDim+d) = x) : kvRow c hs pos i src m a = x := by
  have heads : ∀ n ≤ c.nKvHead,h0 < n → n.fold (fun h _ m =>
      splice m (h*hs+(pos+i)*c.kvHeadDim) c.kvHeadDim fun d => src (i*c.kvDim+h*c.kvHeadDim+d)) m a = x := by
    intro n
    induction n with
    | zero =>
      intro _ none'
      exact absurd none' (Nat.not_lt_zero _)
    | succ n ih =>
      intro up past
      rw [Nat.fold_succ,splice]
      split
      · exact values n (by omega) (by omega) _ (by omega)
      · next outside =>
        have other : h0 ≠ n := by
          rintro rfl
          exact outside inside
        exact ih (by omega) (by omega)
  exact heads c.nKvHead le_rfl head

theorem kvWrite_const {pos n : Nat} {src m : Nat → K} {x : K} (rows' : ∀ o,src o = x) (cells : ∀ p,m p = x) (p : Nat) :
    kvWrite c hs pos n src m p = x := by
  have row : ∀ i (m : Nat → K),(∀ p,m p = x) → ∀ p,kvRow c hs pos i src m p = x := by
    intro i m cells
    unfold kvRow
    induction c.nKvHead with
    | zero => exact cells
    | succ h ih =>
      intro p
      rw [Nat.fold_succ,splice]
      split
      · exact rows' _
      · exact ih p
  unfold kvWrite
  induction n generalizing p with
  | zero => exact cells p
  | succ n ih =>
    rw [Nat.fold_succ]
    exact row n _ ih p

end Cells

section Runs
variable {K : Type}

def rows (calls : List (AttnCall K)) : Nat := (calls.map AttnCall.n).sum

@[simp] theorem rows_nil : rows ([] : List (AttnCall K)) = 0 := rfl

@[simp] theorem rows_cons (call : AttnCall K) (rest : List (AttnCall K)) : rows (call :: rest) = call.n+rows rest := rfl

@[simp] theorem rows_append (before : List (AttnCall K)) (call : AttnCall K) : rows (before++[call]) = rows before+call.n := by
  simp [rows]

variable [Zero K]

def supplied (pitch : Nat) (source : AttnCall K → Nat → K) : List (AttnCall K) → Nat → Nat → K
  | [],_ => fun _ => 0
  | call :: rest,s => if s < call.n then fun o => source call (s*pitch+o) else supplied pitch source rest (s-call.n)

theorem supplied_append (pitch : Nat) (source : AttnCall K → Nat → K) (before : List (AttnCall K)) (call : AttnCall K) (s : Nat) :
    supplied pitch source (before++[call]) s = if s < rows before then supplied pitch source before s
      else supplied pitch source [call] (s-rows before) := by
  induction before generalizing s with
  | nil => simp
  | cons first' rest ih =>
    have total := rows_cons first' rest
    rw [List.cons_append,supplied,supplied,ih]
    by_cases here : s < first'.n
    · rw [if_pos here,if_pos (by omega),if_pos here]
    · rw [if_neg here]
      by_cases inside : s-first'.n < rows rest
      · rw [if_pos inside,if_pos (by omega),if_neg here]
      · rw [if_neg inside,if_neg (by omega),Nat.sub_sub,total]

end Runs

section Cache
variable {K : Type} [Field K]

theorem written_holds {c : AttnConfig} {cap : Nat} (strides : Strides c cap (u32 (cap*c.kvHeadDim))) {before : List (AttnCall K)}
    {call : AttnCall K} (fits : rows before+call.n ≤ cap) (source : AttnCall K → Nat → K) {m : Nat → K}
    (held : ∀ h < c.nKvHead,∀ s < rows before,∀ d < c.kvHeadDim,
      m (cell c cap h s d) = supplied c.kvDim source before s (h*c.kvHeadDim+d)) :
    ∀ h < c.nKvHead,∀ s < rows (before++[call]),∀ d < c.kvHeadDim,
      kvWrite c (u32 (cap*c.kvHeadDim)) (rows before) call.n (source call) m (cell c cap h s d) =
        supplied c.kvDim source (before++[call]) s (h*c.kvHeadDim+d) := by
  intro h head s inside d small
  rw [rows_append] at inside
  rw [kvWrite_cell strides fits head (by omega) small,supplied_append]
  by_cases earlier : s < rows before
  · rw [if_neg (by omega),if_pos earlier,held h head s earlier d small]
  · rw [if_pos (by omega),if_neg earlier,supplied,if_pos (by omega),Nat.add_assoc]

variable [LinearOrder K] (avx2 : Bool) (exp : K → K) (scale : K) (c : AttnConfig) (win : Nat)

-- The cache after calls at consecutive positions from 0 on.
def cacheAfter (akc : AttnKvCache K) (calls : List (AttnCall K)) : AttnKvCache K :=
  (calls.foldl (fun s call => ((opAttn avx2 exp scale c win s.1 s.2 call).1,s.2+call.n)) (akc,0)).1

@[simp] theorem cacheAfter_nil (akc : AttnKvCache K) : cacheAfter avx2 exp scale c win akc [] = akc := rfl

theorem cacheAfter_append (akc : AttnKvCache K) (before : List (AttnCall K)) (call : AttnCall K) :
    cacheAfter avx2 exp scale c win akc (before++[call]) =
      (opAttn avx2 exp scale c win (cacheAfter avx2 exp scale c win akc before) (rows before) call).1 := by
  have position : ∀ (calls : List (AttnCall K)) (s : AttnKvCache K × Nat),
      (calls.foldl (fun s call => ((opAttn avx2 exp scale c win s.1 s.2 call).1,s.2+call.n)) s).2 = s.2+rows calls := by
    intro calls
    induction calls with
    | nil => intro s; rfl
    | cons first' rest ih =>
      intro s
      rw [List.foldl_cons,ih,rows_cons,Nat.add_assoc]
  have start := position before (akc,0)
  rw [cacheAfter,List.foldl_append,List.foldl_cons,List.foldl_nil,start,Nat.zero_add]
  rfl

-- The cells below the position hold the rows supplied there.
structure Holds (cap : Nat) (calls : List (AttnCall K)) (akc : AttnKvCache K) : Prop where
  size : akc.cap = cap
  keys : ∀ h < c.nKvHead,∀ s < rows calls,∀ d < c.kvHeadDim,
    akc.k (cell c cap h s d) = supplied c.kvDim AttnCall.kd calls s (h*c.kvHeadDim+d)
  values : ∀ h < c.nKvHead,∀ s < rows calls,∀ d < c.kvHeadDim,
    akc.v (cell c cap h s d) = supplied c.kvDim AttnCall.vd calls s (h*c.kvHeadDim+d)

variable {avx2 exp scale c win}

theorem opAttn_holds {cap : Nat} (strides : Strides c cap (u32 (cap*c.kvHeadDim))) {before : List (AttnCall K)} {call : AttnCall K}
    {akc : AttnKvCache K} (fits : rows before+call.n ≤ cap) (held : Holds c cap before akc) :
    Holds c cap (before++[call]) (opAttn avx2 exp scale c win akc (rows before) call).1 := by
  obtain ⟨rfl,keys,values⟩ := held
  exact ⟨rfl,written_holds strides fits AttnCall.kd keys,written_holds strides fits AttnCall.vd values⟩

theorem cacheAfter_holds {cap : Nat} (strides : Strides c cap (u32 (cap*c.kvHeadDim))) {akc : AttnKvCache K} (size : akc.cap = cap)
    (calls : List (AttnCall K)) (fits : rows calls ≤ cap) : Holds c cap calls (cacheAfter avx2 exp scale c win akc calls) := by
  induction calls using List.reverseRecOn with
  | nil => exact ⟨size,fun _ _ s none' => absurd none' (by simp),fun _ _ s none' => absurd none' (by simp)⟩
  | append_singleton before call ih =>
    rw [rows_append] at fits
    rw [cacheAfter_append]
    exact opAttn_holds strides fits (ih (by omega))

end Cache

section Reference
variable {K : Type} [Field K] [LinearOrder K]

-- The positions a query at t may look at.
def visible (win t : Nat) : Finset Nat := Finset.Ico (if win = 0 then 0 else t+1-win) (t+1)

def top {ι : Type} (s : Finset ι) (score : ι → K) : K := if some' : s.Nonempty then s.sup' some' score else 0

-- Attention over the rows at the given positions.
def attention (exp : K → K) (scale : K) (seen : Finset Nat) (q : Nat → K) (k v : Nat → Nat → K) (hd d : Nat) : K :=
  let score s := scale*∑ j ∈ Finset.range hd,q j*k s j
  weighted exp seen score (fun s => v s d) (top seen score)/mass exp seen score (top seen score)

theorem visible_eq (win t : Nat) : visible win t = Finset.Ico (visibleStart win (t+1)) (t+1) := by
  unfold visible visibleStart
  congr 1
  by_cases full : win = 0
  · rw [if_pos full,if_neg fun both => both.1 full]
  · rw [if_neg full]
    split <;> omega

theorem headMean_eq {exp : K → K} {scale : K} {kh vh qh : Nat → K} {k v : Nat → Nat → K} {hd start nKeys d : Nat} (later : start < nKeys)
    (keys : ∀ t < nKeys-start,∀ j < hd,kh (t*hd+j) = k (start+t) j) (values : ∀ t < nKeys-start,vh (t*hd+d) = v (start+t) d) :
    headMean exp scale kh vh qh hd (nKeys-start) d = attention exp scale (Finset.Ico start nKeys) qh k v hd d := by
  set own := fun s => scale*∑ j ∈ Finset.range hd,qh j*k s j with named
  have scores : ∀ t < nKeys-start,score scale kh qh hd t = own (start+t) := by
    intro t below
    rw [score,named,mul_comm]
    congr 1
    refine Finset.sum_congr rfl fun j member => ?_
    rw [keys t below j (Finset.mem_range.mp member),mul_comm]
  have some' : (Finset.Ico start nKeys).Nonempty := Finset.nonempty_Ico.mpr later
  have largest : peak (score scale kh qh hd) (nKeys-start) = top (Finset.Ico start nKeys) own := by
    refine eq_of_forall_ge_iff fun c => ?_
    rw [peak_le _ (by omega),top,dif_pos some',Finset.sup'_le_iff]
    constructor
    · intro all s member
      obtain ⟨low,high⟩ := Finset.mem_Ico.mp member
      have here := all (s-start) (by omega)
      rwa [scores _ (by omega),Nat.add_sub_cancel' low] at here
    · intro all t below
      rw [scores t below]
      exact all _ (Finset.mem_Ico.mpr ⟨by omega,by omega⟩)
  unfold headMean attention
  dsimp only
  rw [largest]
  congr 1
  · rw [weighted,weighted,Finset.sum_Ico_eq_sum_range]
    refine Finset.sum_congr rfl fun t member => ?_
    have below := Finset.mem_range.mp member
    rw [scores t below,values t below]
  · rw [mass,mass,Finset.sum_Ico_eq_sum_range]
    exact Finset.sum_congr rfl fun t member => by rw [scores t (Finset.mem_range.mp member)]

end Reference

section Outputs
variable {K : Type} [Field K] [LinearOrder K] {avx2 : Bool} {exp : K → K} {scale : K} {c : AttnConfig} {win pos i h d : Nat}
variable {akc : AttnKvCache K} {call : AttnCall K}

theorem qDim_of (narrow : c.nHead*c.headDim < 2^32) : c.qDim = c.nHead*c.headDim := u32_of_lt narrow

theorem opAttn_place (square : c.kvHeadDim = c.headDim) (narrow : c.nHead*c.headDim < 2^32) (row : i < call.n) (head : h < c.nHead)
    (small : d < c.headDim) : (opAttn avx2 exp scale c win akc pos call).2 (i*c.qDim+h*c.headDim+d) =
      let at' m p := kvWrite c (u32 (akc.cap*c.kvHeadDim)) pos call.n m.1 m.2
        (h/c.gqa*u32 (akc.cap*c.kvHeadDim)+visibleStart win (pos+i+1)*c.kvHeadDim+p)
      headMean exp scale (at' (call.kd,akc.k)) (at' (call.vd,akc.v)) (fun j => call.qd (i*c.qDim+h*c.headDim+j)) c.kvHeadDim
        (pos+i+1-visibleStart win (pos+i+1)) d := by
  have flat : ∀ qi h,qi*c.qDim+h*c.headDim = (qi*c.nHead+h)*c.headDim := by
    intro qi h
    rw [qDim_of narrow,Nat.add_mul,Nat.mul_assoc]
  have cleared : i*c.qDim+h*c.headDim+d < call.n*c.qDim := by
    have heads : (h+1)*c.headDim ≤ c.nHead*c.headDim := Nat.mul_le_mul_right _ head
    have queries : (i+1)*c.qDim ≤ call.n*c.qDim := Nat.mul_le_mul_right _ row
    rw [Nat.succ_mul] at heads queries
    rw [← qDim_of narrow] at heads
    omega
  have own : ∀ qi h',h' < c.nHead → (qi*c.qDim+h'*c.headDim ≤ i*c.qDim+h*c.headDim+d ∧
      i*c.qDim+h*c.headDim+d < qi*c.qDim+h'*c.headDim+c.kvHeadDim ↔ h' = h ∧ qi = i) := by
    intro qi h' head'
    rw [flat,flat,square,row_inside small]
    constructor
    · intro same
      obtain ⟨query,lane⟩ := row_inj head' head same
      exact ⟨lane,query⟩
    · rintro ⟨rfl,rfl⟩
      rfl
  rw [opAttn_dst _ _ _ _ _ _ _ _ (by omega),if_pos cleared,zero_add,Finset.sum_eq_single h,Finset.sum_eq_single i]
  · rw [if_pos ((own i h head).mpr ⟨rfl,rfl⟩),Nat.add_sub_cancel_left]
  · intro qi _ other
    exact if_neg fun inside => other ((own qi h head).mp inside).2
  · intro out
    exact absurd (Finset.mem_range.mpr row) out
  · intro h' member other
    refine Finset.sum_eq_zero fun qi _ => ?_
    exact if_neg fun inside => other ((own qi h' (Finset.mem_range.mp member)).mp inside).1
  · intro out
    exact absurd (Finset.mem_range.mpr head) out

theorem kvHead_lt (divides : c.nKvHead ∣ c.nHead) (head : h < c.nHead) : h/c.gqa < c.nKvHead := by
  have whole : c.gqa*c.nKvHead = c.nHead := Nat.div_mul_cancel divides
  exact Nat.div_lt_of_lt_mul (by rwa [whole])

theorem opAttn_exact {cap : Nat} (square : c.kvHeadDim = c.headDim) (divides : c.nKvHead ∣ c.nHead)
    (strides : Strides c cap (u32 (cap*c.kvHeadDim))) (narrow : c.nHead*c.headDim < 2^32) (size : akc.cap = cap)
    (before : List (AttnCall K)) (fits : rows before+call.n ≤ cap) (row : i < call.n) (head : h < c.nHead) (small : d < c.headDim) :
    (opAttn avx2 exp scale c win (cacheAfter avx2 exp scale c win akc before) (rows before) call).2 (i*c.qDim+h*c.headDim+d) =
      attention exp scale (visible win (rows before+i)) (fun j => call.qd (i*c.qDim+h*c.headDim+j))
        (fun s j => supplied c.kvDim AttnCall.kd (before++[call]) s (h/c.gqa*c.headDim+j))
        (fun s j => supplied c.kvDim AttnCall.vd (before++[call]) s (h/c.gqa*c.headDim+j)) c.headDim d := by
  have earlier : Holds c cap before (cacheAfter avx2 exp scale c win akc before) := cacheAfter_holds strides size before (by omega)
  obtain ⟨_,keys,values⟩ := @opAttn_holds K _ _ avx2 exp scale c win cap strides before call _ fits earlier
  have kvHead := kvHead_lt divides head
  have start : visibleStart win (rows before+i+1) < rows before+i+1 := visibleStart_lt (Nat.succ_pos _)
  have inside : ∀ t,t < rows before+i+1-visibleStart win (rows before+i+1) →
      visibleStart win (rows before+i+1)+t < rows (before++[call]) := by
    intro t below
    rw [rows_append]
    omega
  have address : ∀ t j,h/c.gqa*u32 (cap*c.kvHeadDim)+visibleStart win (rows before+i+1)*c.kvHeadDim+(t*c.kvHeadDim+j) =
      cell c cap (h/c.gqa) (visibleStart win (rows before+i+1)+t) j := by
    intro t j
    rw [← cell_place strides kvHead,Nat.add_mul]
    omega
  rw [opAttn_place square narrow row head small,visible_eq]
  dsimp only
  rw [earlier.size,← square]
  refine headMean_eq start (fun t below j narrow' => ?_) fun t below => ?_
  · rw [address]
    have held := keys (h/c.gqa) kvHead _ (inside t below) j narrow'
    unfold opAttn at held
    rwa [earlier.size] at held
  · rw [address]
    have held := values (h/c.gqa) kvHead _ (inside t below) d (by omega)
    unfold opAttn at held
    rwa [earlier.size] at held

end Outputs

section Exactness
variable {K : Type} [Field K] [LinearOrder K]

-- Every output of every call is attention over the rows supplied so far.
def AttentionExact (avx2 : Bool) (exp : K → K) (scale : K) (c : AttnConfig) (win cap : Nat) : Prop :=
  ∀ (akc : AttnKvCache K) (before : List (AttnCall K)) (call : AttnCall K),akc.cap = cap → rows before+call.n ≤ cap →
    ∀ i < call.n,∀ h < c.nHead,∀ d < c.headDim,
      (opAttn avx2 exp scale c win (cacheAfter avx2 exp scale c win akc before) (rows before) call).2 (i*c.qDim+h*c.headDim+d) =
        attention exp scale (visible win (rows before+i)) (fun j => call.qd (i*c.qDim+h*c.headDim+j))
          (fun s j => supplied c.kvDim AttnCall.kd (before++[call]) s (h/c.gqa*c.headDim+j))
          (fun s j => supplied c.kvDim AttnCall.vd (before++[call]) s (h/c.gqa*c.headDim+j)) c.headDim d

-- Neither the stride of the heads nor the width of a row outgrows its 32 bits.
def Fits (c : AttnConfig) (cap : Nat) : Prop :=
  (c.nHead = 0 ∨ c.nKvHead ≤ 1 ∨ cap*c.kvHeadDim < 2^32) ∧ (cap = 0 ∨ c.nHead*c.headDim < 2^32)
deriving Decidable

variable {avx2 : Bool} {exp : K → K} {scale : K} {c : AttnConfig} {win cap : Nat}

theorem attention_single (positive : ∀ x,0 < exp x) (s : Nat) (q : Nat → K) (k v : Nat → Nat → K) (hd d : Nat) :
    attention exp scale {s} q k v hd d = v s d := by
  unfold attention weighted mass
  dsimp only
  rw [Finset.sum_singleton,Finset.sum_singleton]
  exact mul_div_cancel_left₀ _ (positive _).ne'

theorem visible_zero (win : Nat) : visible win 0 = {0} := by
  unfold visible
  split
  · rfl
  · rw [show 0+1-win = 0 by omega]
    rfl

theorem first_place (positive : ∀ x,0 < exp x) (square : c.kvHeadDim = c.headDim) (narrow : c.nHead*c.headDim < 2^32)
    {akc : AttnKvCache K} {call : AttnCall K} {h d : Nat} (row : 0 < call.n) (head : h < c.nHead) (small : d < c.headDim) :
    (opAttn avx2 exp scale c win akc 0 call).2 (0*c.qDim+h*c.headDim+d) =
      kvWrite c (u32 (akc.cap*c.kvHeadDim)) 0 call.n call.vd akc.v (h/c.gqa*u32 (akc.cap*c.kvHeadDim)+d) := by
  have start : visibleStart win 1 = 0 := by
    unfold visibleStart
    split <;> omega
  rw [opAttn_place square narrow row head small]
  simp only [Nat.zero_add,start,Nat.sub_zero,Nat.zero_mul,Nat.add_zero]
  rw [headMean,Finset.range_one]
  unfold weighted mass
  rw [Finset.sum_singleton,Finset.sum_singleton,mul_div_cancel_left₀ _ (positive _).ne']
  dsimp only
  rw [Nat.zero_mul,Nat.zero_add]

theorem exact_first (positive : ∀ x,0 < exp x) (square : c.kvHeadDim = c.headDim) (narrow : c.nHead*c.headDim < 2^32)
    (exact' : AttentionExact avx2 exp scale c win cap) {m : Nat → K} {call : AttnCall K} {h d : Nat} (row : 0 < call.n) (fits : call.n ≤ cap)
    (head : h < c.nHead) (small : d < c.headDim) :
    kvWrite c (u32 (cap*c.kvHeadDim)) 0 call.n call.vd m (h/c.gqa*u32 (cap*c.kvHeadDim)+d) = call.vd (h/c.gqa*c.headDim+d) := by
  have out := exact' ⟨m,m,0,cap⟩ [] call rfl (by simpa using fits) 0 row h head d small
  rw [rows_nil,visible_zero,attention_single positive] at out
  have place := @first_place K _ _ avx2 exp scale c win positive square narrow ⟨m,m,0,cap⟩ call h d row head small
  have whole := place.symm.trans out
  simpa [supplied,row] using whole

theorem exact_narrow (positive : ∀ x,0 < exp x) (square : c.kvHeadDim = c.headDim)
    (exact' : AttentionExact avx2 exp scale c win cap) (some' : 0 < cap) : c.nHead*c.headDim < 2^32 := by
  by_contra wide
  have heads : 0 < c.nHead := Nat.pos_of_ne_zero fun none' => wide (by rw [none',Nat.zero_mul]; decide)
  have dims : 0 < c.headDim := Nat.pos_of_ne_zero fun none' => wide (by rw [none',Nat.mul_zero]; decide)
  have pitch : c.qDim < 2^32 := u32_lt _
  have last : 0*c.qDim+(c.nHead-1)*c.headDim+(c.headDim-1)+1 = c.nHead*c.headDim := by
    have split : (c.nHead-1+1)*c.headDim = c.nHead*c.headDim := by rw [Nat.sub_add_cancel heads]
    rw [Nat.succ_mul] at split
    omega
  have out := exact' ⟨fun _ => 0,fun _ => 0,0,cap⟩ [] ⟨1,fun _ => 0,fun _ => 0,fun _ => 0,fun _ => 1,fun _ => 0⟩ rfl
    (by simpa using Nat.succ_le_of_lt some') 0 one_pos (c.nHead-1) (by omega) (c.headDim-1) (by omega)
  rw [rows_nil,visible_zero,attention_single positive,opAttn_dst _ _ _ _ _ _ _ _ (by omega)] at out
  dsimp only at out
  rw [if_neg (by omega)] at out
  have nothing : ∀ p,kvWrite c (u32 (cap*c.kvHeadDim)) 0 1 (fun _ => (0 : K)) (fun _ => 0) p = 0 := kvWrite_const (fun _ => rfl) fun _ => rfl
  have still : ∀ kh qh : Nat → K,∀ n d,headMean exp scale kh (fun _ => 0) qh c.kvHeadDim n d = 0 := by
    intro kh qh n d
    simp [headMean,weighted]
  simp [nothing,still,supplied] at out

theorem exact_strides (positive : ∀ x,0 < exp x) (square : c.kvHeadDim = c.headDim) (divides : c.nKvHead ∣ c.nHead)
    (exact' : AttentionExact avx2 exp scale c win cap) (heads : 0 < c.nHead) (several : 2 ≤ c.nKvHead) : cap*c.kvHeadDim < 2^32 := by
  by_contra wide
  have some' : 0 < cap := Nat.pos_of_ne_zero fun none' => wide (by rw [none',Nat.zero_mul]; decide)
  have dims : 0 < c.kvHeadDim := Nat.pos_of_ne_zero fun none' => wide (by rw [none',Nat.mul_zero]; decide)
  have narrow := exact_narrow positive square exact' some'
  have fewer : c.nKvHead ≤ c.nHead := Nat.le_of_dvd heads divides
  have pitch : c.kvDim = c.nKvHead*c.kvHeadDim := by
    refine u32_of_lt (lt_of_le_of_lt ?_ narrow)
    rw [square]
    exact Nat.mul_le_mul_right _ fewer
  have group : 0 < c.gqa := Nat.div_pos fewer (by omega)
  have second' : c.gqa < c.nHead := by
    have whole : c.gqa*c.nKvHead = c.nHead := Nat.div_mul_cancel divides
    have double : c.gqa*2 ≤ c.gqa*c.nKvHead := Nat.mul_le_mul_left _ several
    omega
  set hs := u32 (cap*c.kvHeadDim) with stride
  have short : hs < cap*c.kvHeadDim := lt_of_lt_of_le (u32_lt _) (not_lt.mp wide)
  have split := Nat.div_add_mod hs c.kvHeadDim
  have rest := Nat.mod_lt hs dims
  have below : hs/c.kvHeadDim < cap := Nat.div_lt_of_lt_mul (by rwa [Nat.mul_comm])
  rcases Nat.eq_zero_or_pos (hs/c.kvHeadDim) with near | far
  · -- The second head starts inside the first row of the first.
    have inside : hs < c.kvHeadDim := (Nat.div_eq_zero_iff_lt dims).mp near
    have out := @exact_first K _ _ avx2 exp scale c win cap positive square narrow exact' (fun _ => 0)
      ⟨1,fun _ => 0,fun _ => 0,fun o => if o < c.kvHeadDim then 0 else 1,fun _ => 0,fun _ => 0⟩ 0 hs one_pos some' heads (by omega)
    rw [Nat.zero_div,Nat.zero_mul,Nat.zero_mul,Nat.zero_add,kvWrite,Nat.fold_succ,Nat.fold_zero,
      @kvRow_last K c hs _ _ _ 1 _ _ 1 (by omega) (by omega) (fun h one _ d small => ?_)] at out
    · simp [inside] at out
    · have past : 1*c.kvHeadDim ≤ h*c.kvHeadDim := Nat.mul_le_mul_right _ one
      exact if_neg (by omega)
  · -- The first head comes to the start of the second in a later row.
    have out := @exact_first K _ _ avx2 exp scale c win cap positive square narrow exact' (fun _ => 0)
      ⟨hs/c.kvHeadDim+1,fun _ => 0,fun _ => 0,fun o => if o = c.kvHeadDim then 0 else 1,fun _ => 0,fun _ => 0⟩ c.gqa 0
      (Nat.succ_pos _) below second' (by omega)
    rw [Nat.div_self group,Nat.one_mul,Nat.one_mul,Nat.add_zero,kvWrite,Nat.fold_succ,
      @kvRow_last K c hs _ _ _ 0 _ _ 1 (by omega) ?_ (fun h _ _ d small => ?_)] at out
    · simp [← square] at out
    · rw [Nat.mul_comm] at split
      rw [Nat.zero_mul,Nat.zero_add,Nat.zero_add]
      omega
    · have later : c.kvDim ≤ hs/c.kvHeadDim*c.kvDim := Nat.le_mul_of_pos_left _ far
      have twice : 2*c.kvHeadDim ≤ c.nKvHead*c.kvHeadDim := Nat.mul_le_mul_right _ several
      exact if_neg (by omega)

theorem fits_strides (fits : Fits c cap) (heads : 0 < c.nHead) : Strides c cap (u32 (cap*c.kvHeadDim)) := by
  intro h head
  rcases fits.1 with none' | one | narrow
  · omega
  · have only : h = 0 := by omega
    rw [only,Nat.zero_mul,Nat.zero_mul]
  · rw [u32_of_lt narrow]

-- The conditions are exact; and where exp turns sums into products, the weights are those of
-- the plain softmax.
theorem attention_exact_iff (positive : ∀ x,0 < exp x) (square : c.kvHeadDim = c.headDim) (divides : c.nKvHead ∣ c.nHead) :
    ((∀ (akc : AttnKvCache K) (before : List (AttnCall K)) (call : AttnCall K),akc.cap = cap → rows before+call.n ≤ cap →
      ∀ i < call.n,∀ h < c.nHead,∀ d < c.headDim,
        (opAttn avx2 exp scale c win (cacheAfter avx2 exp scale c win akc before) (rows before) call).2
            (i*c.qDim+h*c.headDim+d) =
          attention exp scale (visible win (rows before+i)) (fun j => call.qd (i*c.qDim+h*c.headDim+j))
            (fun s j => supplied c.kvDim AttnCall.kd (before++[call]) s (h/c.gqa*c.headDim+j))
            (fun s j => supplied c.kvDim AttnCall.vd (before++[call]) s (h/c.gqa*c.headDim+j)) c.headDim d) ↔ Fits c cap) ∧
      (Exponential exp → ∀ (seen : Finset Nat) (q : Nat → K) (k v : Nat → Nat → K) (hd d : Nat),
        attention exp scale seen q k v hd d =
          softmaxMean exp seen (fun s => scale*∑ j ∈ Finset.range hd,q j*k s j) fun s => v s d) := by
  refine ⟨⟨fun exact' => ⟨?_,?_⟩,fun fits akc before call size room i row h head d small => ?_⟩,
    fun laws seen q k v hd d => mean_shift laws _⟩
  · by_cases heads : c.nHead = 0
    · exact .inl heads
    · by_cases several : 2 ≤ c.nKvHead
      · exact .inr (.inr (exact_strides positive square divides exact' (Nat.pos_of_ne_zero heads) several))
      · exact .inr (.inl (by omega))
  · by_cases some' : cap = 0
    · exact .inl some'
    · exact .inr (exact_narrow positive square exact' (Nat.pos_of_ne_zero some'))
  · have narrow : c.nHead*c.headDim < 2^32 := fits.2.resolve_left (by omega)
    exact opAttn_exact square divides (fits_strides fits (by omega)) narrow size before room row head small

end Exactness

-- Grouped heads over a short context.
theorem smallHeads_exact : AttentionExact true Real.exp (1/8) ⟨8,2,64,64⟩ 512 4096 :=
  (attention_exact_iff (c:=⟨8,2,64,64⟩) Real.exp_pos rfl (by decide)).1.mpr (by decide : Fits ⟨8,2,64,64⟩ 4096)

-- Two heads of 128 dimensions over a context of 2^25: both heads have one row of cells.
theorem longContext_shared : ¬ ∀ (avx2 : Bool) (scale : ℝ) (c : AttnConfig) (win cap : Nat) (akc : AttnKvCache ℝ)
    (before : List (AttnCall ℝ)) (call : AttnCall ℝ),c.kvHeadDim = c.headDim → c.nKvHead ∣ c.nHead → akc.cap = cap →
    rows before+call.n ≤ cap → ∀ i < call.n,∀ h < c.nHead,∀ d < c.headDim,
      (opAttn avx2 Real.exp scale c win (cacheAfter avx2 Real.exp scale c win akc before) (rows before) call).2
          (i*c.qDim+h*c.headDim+d) =
        attention Real.exp scale (visible win (rows before+i)) (fun j => call.qd (i*c.qDim+h*c.headDim+j))
          (fun s j => supplied c.kvDim AttnCall.kd (before++[call]) s (h/c.gqa*c.headDim+j))
          (fun s j => supplied c.kvDim AttnCall.vd (before++[call]) s (h/c.gqa*c.headDim+j)) c.headDim d := by
  intro always
  have exact' : AttentionExact true Real.exp 1 ⟨2,2,128,128⟩ 0 (2^25) := fun akc before call size room =>
    always true 1 ⟨2,2,128,128⟩ 0 (2^25) akc before call rfl (by decide) size room
  have narrow := exact_strides Real.exp_pos rfl (by decide) exact' two_pos le_rfl
  exact absurd narrow (by decide)

end TinyLlama.Cpu
