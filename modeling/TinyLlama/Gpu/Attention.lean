import TinyLlama.Lib.Grid
import TinyLlama.Cpu.Attention

-- backend/gpu/gpu_op.cu: k_attn. What the threads share between two barriers is a state, and a tile is one step of it.
namespace TinyLlama.Gpu
open Warp Sweep Softmax Grid Cpu

section Kernel
variable {K : Type} [Field K] [LinearOrder K]

-- The first lanes of the warps leave their totals in `red`, and one thread goes through them.
def blockSum (nthreads : Nat) (v : Nat → K) : K :=
  let red w := reduceDown 32 5 v (32*w)
  let nw := (nthreads+31)/32
  (nw-1).fold (fun w _ s => s+red (w+1)) (red 0)

def blockMax (nthreads : Nat) (v : Nat → WithBot K) : WithBot K :=
  let red w := reduceDownBy max 32 5 v (32*w)
  let nw := (nthreads+31)/32
  (nw-1).fold (fun w _ m => max m (red (w+1))) (red 0)

structure AttnShared (K : Type) where
  m : WithBot K
  l : K
  acc : Nat → K

def attnTile (nthreads : Nat) (exp : K → K) (scale : K) (kb vb qh : Nat → K) (khd nVis t0 : Nat) (sm : AttnShared K) : AttnShared K :=
  let tile := min nthreads (nVis-t0)
  let s (tid : Nat) : WithBot K :=
    if tid < tile then (khd.fold (fun d _ dot => dot+qh d*kb ((t0+tid)*khd+d)) 0*scale : K) else ⊥
  let tmax := blockMax nthreads s
  let newM := max sm.m tmax
  let p tid := if tid < tile then expDiff exp (s tid) newM else 0
  let factor := expDiff exp sm.m newM
  let tsum := blockSum nthreads p
  { m := newM
    l := sm.l*factor+tsum
    acc := fun d => if d < khd then tile.fold (fun t2 _ a => a+p t2*vb ((t0+t2)*khd+d)) (sm.acc d*factor) else sm.acc d }

-- The writes of the block, thread after thread.
def kAttn (nthreads : Nat) (exp : K → K) (scale : K) (gqa hd khd qDim hs pos win : Nat) (qd ck cv : Nat → K) (h qi : Nat) : List (Nat × K) :=
  let qh j := qd (qi*qDim+h*hd+j)
  let nKeys := pos+qi+1
  let start := visibleStart win nKeys
  let nVis := nKeys-start
  let kb p := ck (h/gqa*hs+start*khd+p)
  let vb p := cv (h/gqa*hs+start*khd+p)
  let sm := strided 0 nthreads nVis (fun t0 sm => attnTile nthreads exp scale kb vb qh khd nVis t0 sm) ⟨⊥,0,fun _ => 0⟩
  (List.range nthreads).flatMap fun tid => (stridedList tid nthreads khd).map fun d => (qi*qDim+h*hd+d,sm.acc d/sm.l)

end Kernel

section Blocks
variable {K : Type} {nthreads : Nat}

theorem blockSum_eq [Field K] (some' : 0 < nthreads) (whole : nthreads % 32 = 0) (v : Nat → K) :
    blockSum nthreads v = ∑ tid ∈ Finset.range nthreads,v tid := by
  obtain ⟨nw,rfl⟩ : ∃ nw,nthreads = (nw+1)*32 := ⟨nthreads/32-1,by omega⟩
  have warps : ((nw+1)*32+31)/32 = nw+1 := by omega
  have warp : ∀ w,reduceDown 32 5 v (32*w) = ∑ j ∈ Finset.range 32,v (w*32+j) := by
    intro w
    rw [reduceDown_eq v (by omega),Nat.mul_comm]
    rfl
  unfold blockSum
  dsimp only
  rw [warps,Nat.add_sub_cancel,fold_total (m:=fun s : K => s) (fun w _ s => rfl),← sum_stride (nw+1) 32 v,Finset.sum_range_succ',
    Finset.sum_congr rfl fun w _ => warp (w+1),warp 0,add_comm]

theorem blockMax_le [LinearOrder K] (some' : 0 < nthreads) (whole : nthreads % 32 = 0) (v : Nat → WithBot K) (c : WithBot K) :
    blockMax nthreads v ≤ c ↔ ∀ tid < nthreads,v tid ≤ c := by
  obtain ⟨nw,rfl⟩ : ∃ nw,nthreads = (nw+1)*32 := ⟨nthreads/32-1,by omega⟩
  have warps : ((nw+1)*32+31)/32 = nw+1 := by omega
  have warp : ∀ w,reduceDownBy max 32 5 v (32*w) ≤ c ↔ ∀ j < 32,v (32*w+j) ≤ c := fun w =>
    reduceDownBy_max_le v c (by omega)
  have all : ∀ n,n.fold (fun w _ m => max m (reduceDownBy max 32 5 v (32*(w+1)))) (reduceDownBy max 32 5 v (32*0)) ≤ c ↔
      ∀ w < n+1,∀ j < 32,v (32*w+j) ≤ c := by
    intro n
    induction n with
    | zero =>
      rw [Nat.fold_zero,warp]
      exact ⟨fun lanes w below => Nat.lt_one_iff.mp below ▸ lanes,fun lanes => lanes 0 one_pos⟩
    | succ n ih => rw [Nat.fold_succ,max_le_iff,ih,warp,Nat.forall_lt_succ_right (n:=n+1)]
  unfold blockMax
  dsimp only
  rw [warps,Nat.add_sub_cancel,all]
  constructor
  · intro lanes tid below
    have lane := lanes (tid/32) (by omega) (tid % 32) (Nat.mod_lt _ (by decide))
    rwa [Nat.div_add_mod] at lane
  · intro threads w below j small
    exact threads _ (by omega)

end Blocks

section Tiles
variable {K : Type} [Field K] {nthreads : Nat} {exp : K → K} {scale : K} {kb vb qh : Nat → K} {khd nVis : Nat}

theorem tile_sum (t0 tile : Nat) (f : Nat → K) : ∑ t ∈ Finset.range tile,f (t0+t) = ∑ t ∈ Finset.Ico t0 (t0+tile),f t := by
  rw [Finset.sum_Ico_eq_sum_range,Nat.add_sub_cancel_left]

theorem tile_threads {tile : Nat} (short : tile ≤ nthreads) (f : Nat → K) :
    ∑ tid ∈ Finset.range nthreads,(if tid < tile then f tid else 0) = ∑ t ∈ Finset.range tile,f t := by
  rw [← Finset.sum_filter]
  refine Finset.sum_congr ?_ fun _ _ => rfl
  ext tid
  rw [Finset.mem_filter,Finset.mem_range,Finset.mem_range]
  exact ⟨And.right,fun below => ⟨by omega,below⟩⟩

theorem dot_score (t : Nat) : khd.fold (fun d _ dot => dot+qh d*kb (t*khd+d)) 0*scale = score scale kb qh khd t := by
  rw [fold_total (m:=fun dot : K => dot) (fun _ _ _ => rfl),zero_add,score]
  congr 1
  exact Finset.sum_congr rfl fun d _ => mul_comm _ _

variable [LinearOrder K]

-- A tile takes the keys before t0 to those before its end; the first comes from minus infinity.
theorem attnTile_streamed (laws : Exponential exp) (some' : 0 < nthreads) (whole : nthreads % 32 = 0) {t0 : Nat} (visible : t0 < nVis)
    {sm : AttnShared K} (before : Streamed exp (Finset.range t0) (score scale kb qh khd) (fun t (d : Fin khd) => vb (t*khd+d))
      sm.m sm.l fun d => sm.acc d) :
    let sm' := attnTile nthreads exp scale kb vb qh khd nVis t0 sm
    Streamed exp (Finset.range (min (t0+nthreads) nVis)) (score scale kb qh khd) (fun t (d : Fin khd) => vb (t*khd+d))
      sm'.m sm'.l fun d => sm'.acc d := by
  set own : Nat → K := score scale kb qh khd with scored
  set tile := min nthreads (nVis-t0) with width
  set s : Nat → WithBot K := fun tid => if tid < tile then (own (t0+tid) : K) else ⊥ with scores
  set newM := max sm.m (blockMax nthreads s) with largest
  have real : newM ≠ ⊥ := by
    intro none'
    have bounded : blockMax nthreads s ≤ ⊥ := (le_max_right sm.m _).trans (le_of_eq none')
    have lane := (blockMax_le some' whole s ⊥).mp bounded 0 some'
    have active : 0 < tile := by omega
    simp only [scores,active,if_true,le_bot_iff] at lane
    exact WithBot.coe_ne_bot lane
  obtain ⟨m',same⟩ := WithBot.ne_bot_iff_exists.mp real
  have weight : ∀ tid < tile,expDiff exp (s tid) newM = expDiff exp (own (t0+tid)) newM := by
    intro tid inside
    simp only [scores,inside,if_true]
  have apart : Disjoint (Finset.range t0) (Finset.Ico t0 (t0+tile)) := by
    rw [Finset.range_eq_Ico]
    exact Finset.Ico_disjoint_Ico_consecutive 0 t0 (t0+tile)
  have keys : Finset.range t0 ∪ Finset.Ico t0 (t0+tile) = Finset.range (min (t0+nthreads) nVis) := by
    rw [Finset.range_eq_Ico,Finset.range_eq_Ico,Finset.Ico_union_Ico_eq_Ico (Nat.zero_le _) (Nat.le_add_right _ _)]
    congr 1
    omega
  have after := streamed_tile laws before apart m'
  rw [keys,same] at after
  have total : blockSum nthreads (fun tid => if tid < tile then expDiff exp (s tid) newM else 0) =
      ∑ t ∈ Finset.Ico t0 (t0+tile),expDiff exp (own t) newM := by
    rw [blockSum_eq some' whole,tile_threads (min_le_left _ _),← tile_sum]
    exact Finset.sum_congr rfl fun t member => weight t (Finset.mem_range.mp member)
  have shared : attnTile nthreads exp scale kb vb qh khd nVis t0 sm =
      ⟨newM,sm.l*expDiff exp sm.m newM+blockSum nthreads (fun tid => if tid < tile then expDiff exp (s tid) newM else 0),
        fun d => if d < khd then tile.fold (fun t2 _ a => a+(if t2 < tile then expDiff exp (s t2) newM else 0)*vb ((t0+t2)*khd+d))
          (sm.acc d*expDiff exp sm.m newM) else sm.acc d⟩ := by
    simp only [attnTile,dot_score,← scored]
    rfl
  dsimp only
  rw [shared]
  dsimp only
  rw [total]
  have columns : (fun d : Fin khd => if (d : Nat) < khd then tile.fold (fun t2 _ a => a+(if t2 < tile then expDiff exp (s t2) newM else 0)*
      vb ((t0+t2)*khd+d)) (sm.acc d*expDiff exp sm.m newM) else sm.acc d) =
      fun d : Fin khd => sm.acc d*expDiff exp sm.m newM+∑ t ∈ Finset.Ico t0 (t0+tile),expDiff exp (own t) newM*vb (t*khd+d) := by
    funext d
    rw [if_pos d.isLt,fold_total (m:=fun a : K => a) (fun _ _ _ => rfl),← tile_sum]
    congr 1
    refine Finset.sum_congr rfl fun t member => ?_
    have inside := Finset.mem_range.mp member
    rw [if_pos inside,weight t inside]
  rw [columns]
  exact after

theorem tiles_streamed (laws : Exponential exp) (some' : 0 < nthreads) (whole : nthreads % 32 = 0) :
    let sm := strided 0 nthreads nVis (fun t0 sm => attnTile nthreads exp scale kb vb qh khd nVis t0 sm) ⟨⊥,0,fun _ => 0⟩
    Streamed exp (Finset.range nVis) (score scale kb qh khd) (fun t (d : Fin khd) => vb (t*khd+d)) sm.m sm.l fun d => sm.acc d := by
  have tiles : ∀ n ≤ rounds 0 nthreads nVis,
      let sm := n.fold (fun t _ sm => attnTile nthreads exp scale kb vb qh khd nVis (0+t*nthreads) sm) ⟨⊥,0,fun _ => 0⟩
      Streamed exp (Finset.range (min (n*nthreads) nVis)) (score scale kb qh khd) (fun t (d : Fin khd) => vb (t*khd+d)) sm.m sm.l
        fun d => sm.acc d := by
    intro n
    induction n with
    | zero =>
      intro _
      rw [Nat.zero_mul,Nat.zero_min,Finset.range_zero]
      exact streamed_empty
    | succ n ih =>
      intro up
      have started : 0+n*nthreads < nVis := (lt_rounds some').mp up
      have before := ih (by omega)
      rw [min_eq_left (by omega),← Nat.zero_add (n*nthreads)] at before
      have place : (n+1)*nthreads = 0+n*nthreads+nthreads := by
        rw [Nat.succ_mul]
        omega
      rw [Nat.fold_succ,place]
      exact attnTile_streamed laws some' whole started before
  have past : nVis ≤ rounds 0 nthreads nVis*nthreads := by
    by_contra short
    exact lt_irrefl _ ((@lt_rounds 0 _ nVis (rounds 0 nthreads nVis) some').mpr (by omega))
  have all := tiles _ le_rfl
  rwa [min_eq_right past] at all

end Tiles

end TinyLlama.Gpu
