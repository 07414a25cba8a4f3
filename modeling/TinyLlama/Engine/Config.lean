import TinyLlama.Engine.AutoContext
import TinyLlama.Graph.Build

-- core.c: the configuration read off the metadata, and what a session hands to the builders.
namespace TinyLlama.Engine
open Gguf TinyLlama.Graph

-- (u32) of an i32
def u32OfInt (v : Int) : Nat := (v % 2^32).toNat

-- The prefix of the architecture's keys: its stored name, else a given one.
def keyPrefix (m : Model) (fallback : String) : String :=
  if m.archName = [] then fallback else String.ofList (m.archName.map fun b => Char.ofNat b.toNat)

-- TRY_I32: the generic prefix is tried as long as the field is 0.
def tryI32 (m : Model) (suffix : String) (field : Nat) : Nat :=
  let gpfx := archKeyPrefix m.arch
  let pfx := keyPrefix m gpfx
  let field := ((modelGetI32 m (pfx++"."++suffix)).map u32OfInt).getD field
  if field = 0 ∧ gpfx ≠ pfx then ((modelGetI32 m (gpfx++"."++suffix)).map u32OfInt).getD field else field

-- TRY_SSM_I32 and fh1_get_i32: the generic prefix is tried when the first has no such key.
def getI32 (m : Model) (fallback suffix : String) : Option Nat :=
  let pfx := keyPrefix m fallback
  match modelGetI32 m (pfx++"."++suffix) with
  | some v => some (u32OfInt v)
  | none => if pfx = fallback then none else (modelGetI32 m (fallback++"."++suffix)).map u32OfInt

def tensorAt (m : Model) (i : Option Nat) : Option TensorInfo := i.bind fun i => m.tensor[i]?

def embdOf (te : Option TensorInfo) (nVocab : Nat) : Nat :=
  let nEmbd :=
    match te with
    | none => 0
    | some te =>
      if te.ndim ≥ 2 then (if te.dim.getD 0 0 = nVocab then u32 (te.dim.getD 1 0) else u32 (te.dim.getD 0 0))
      else if te.ndim = 1 then u32 (te.dim.getD 0 0)
      else 0
  if nEmbd = 0 ∧ nVocab > 0 then nVocab else nEmbd

-- The vocabulary's size is 0 without one.
def archConfigInit (m : Model) (w : Weights) (vocabSize : Nat) : ArchConfig :=
  let nVocab := u32 vocabSize
  let nEmbd := embdOf (tensorAt m (w.tensors .tokenEmbd)) nVocab
  let nHead := tryI32 m "attention.head_count" 0
  let nKvHead := tryI32 m "attention.head_count_kv" 0
  let nKvHead := if nKvHead = 0 then nHead else nKvHead
  let headDim := tryI32 m "attention.head_dim" 0
  let kvHeadDim := tryI32 m "attention.key_length" 0
  let headDim :=
    if headDim = 0 ∧ kvHeadDim > 0 then kvHeadDim
    else if headDim = 0 ∧ nHead > 0 then nEmbd/nHead
    else headDim
  let kvHeadDim := if kvHeadDim = 0 then headDim else kvHeadDim
  let ropeDim := tryI32 m "rope.dimension_count" 0
  let ropeDim := if ropeDim = 0 then headDim else ropeDim
  ⟨nHead,nKvHead,headDim,kvHeadDim,ropeDim,nEmbd,w.nLayer,nVocab⟩

def sessionOf (m : Model) (w : Weights) (vocabSize ctxSize : Nat) (nGpuLayers : Int) : Session :=
  ⟨archConfigInit m w vocabSize,ctxSize,nGpuLayers,fun r => tensorAt m (w.tensors r),fun l r => tensorAt m (w.layers l r)⟩

end TinyLlama.Engine
