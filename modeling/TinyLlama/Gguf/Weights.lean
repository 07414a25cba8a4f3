import TinyLlama.Gguf.Load

-- core.c: architecture detection, the tensor maps, the per-layer weights table, the completeness check and model_load.
namespace TinyLlama.Gguf
open LittleEndian

inductive ModelArch where
  | unknown | llama | qwen2 | qwen3 | deepseek | falcon | falconH1 | gemma3
deriving Repr,DecidableEq

inductive TensorRole where
  | tokenEmbd | output | outputNorm
  | attnNorm | attnQ | attnK | attnV | attnQBias | attnKBias | attnVBias | attnQkv | attnOut | attnGate
  | postAttnNorm | ffnNorm | ffnPostNorm | ffnGate | ffnDown | ffnUp
  | ssmIn | ssmConv1d | ssmAlpha | ssmBeta | ssmA | ssmDtBias | ssmOut | ssmNorm | ssmD | ssmConv1dBias
  | attnQNorm | attnKNorm | outputHcBase | outputHcFn | outputHcScale
deriving Repr,DecidableEq

structure TensorMapEntry where
  role : TensorRole
  name : String
  required : Bool

structure LayerTensorMap where
  role : TensorRole
  suffix : String
  required : Bool

def llamaTensorMap : List TensorMapEntry :=
  [⟨.tokenEmbd,"token_embd.weight",true⟩,⟨.output,"output.weight",false⟩,⟨.outputNorm,"output_norm.weight",true⟩]
def qwen2TensorMap : List TensorMapEntry :=
  [⟨.tokenEmbd,"token_embd.weight",true⟩,⟨.output,"output.weight",false⟩,⟨.outputNorm,"output_norm.weight",true⟩]
def deepseekTensorMap : List TensorMapEntry :=
  [⟨.tokenEmbd,"token_embd.weight",true⟩,⟨.output,"output.weight",true⟩,⟨.outputNorm,"output_norm.weight",true⟩,
   ⟨.outputHcBase,"output_hc_base.weight",true⟩,⟨.outputHcFn,"output_hc_fn.weight",true⟩,
   ⟨.outputHcScale,"output_hc_scale.weight",true⟩]
def gemma3TensorMap : List TensorMapEntry :=
  [⟨.tokenEmbd,"token_embd.weight",true⟩,⟨.output,"output.weight",false⟩,⟨.outputNorm,"output_norm.weight",true⟩]
def falconH1TensorMap : List TensorMapEntry :=
  [⟨.tokenEmbd,"token_embd.weight",true⟩,⟨.output,"output.weight",false⟩,⟨.outputNorm,"output_norm.weight",true⟩]
def unknownTensorMap : List TensorMapEntry :=
  [⟨.tokenEmbd,"token_embd.weight",true⟩,⟨.output,"output.weight",false⟩,⟨.outputNorm,"output_norm.weight",false⟩]

def llamaLayerMap : List LayerTensorMap :=
  [⟨.attnNorm,"attn_norm",true⟩,⟨.attnQ,"attn_q",true⟩,⟨.attnK,"attn_k",true⟩,⟨.attnV,"attn_v",true⟩,
   ⟨.attnQBias,"attn_q.bias",false⟩,⟨.attnKBias,"attn_k.bias",false⟩,⟨.attnVBias,"attn_v.bias",false⟩,
   ⟨.attnOut,"attn_output",true⟩,⟨.postAttnNorm,"ffn_norm",true⟩,⟨.ffnGate,"ffn_gate",true⟩,
   ⟨.ffnDown,"ffn_down",true⟩,⟨.ffnUp,"ffn_up",true⟩]
def qwen2LayerMap : List LayerTensorMap :=
  [⟨.attnNorm,"attn_norm",true⟩,⟨.attnQkv,"attn_qkv",false⟩,⟨.attnQ,"attn_q",false⟩,⟨.attnK,"attn_k",false⟩,
   ⟨.attnV,"attn_v",false⟩,⟨.attnQBias,"attn_q.bias",false⟩,⟨.attnKBias,"attn_k.bias",false⟩,
   ⟨.attnVBias,"attn_v.bias",false⟩,⟨.attnOut,"attn_output",false⟩,⟨.ssmOut,"ssm_out",false⟩,
   ⟨.attnGate,"attn_gate",false⟩,⟨.attnQNorm,"attn_q_norm",false⟩,⟨.attnKNorm,"attn_k_norm",false⟩,
   ⟨.ssmConv1d,"ssm_conv1d",false⟩,⟨.ssmAlpha,"ssm_alpha",false⟩,⟨.ssmBeta,"ssm_beta",false⟩,
   ⟨.ssmA,"ssm_a",false⟩,⟨.ssmDtBias,"ssm_dt.bias",false⟩,⟨.ssmNorm,"ssm_norm",false⟩,
   ⟨.postAttnNorm,"post_attention_norm",false⟩,⟨.postAttnNorm,"ffn_norm",false⟩,⟨.ffnGate,"ffn_gate",true⟩,
   ⟨.ffnDown,"ffn_down",true⟩,⟨.ffnUp,"ffn_up",true⟩]
def deepseekLayerMap : List LayerTensorMap :=
  [⟨.attnNorm,"attn_norm",true⟩,⟨.attnQ,"attn_q",true⟩,⟨.attnK,"attn_k",true⟩,⟨.attnV,"attn_v",true⟩,
   ⟨.attnQBias,"attn_q.bias",false⟩,⟨.attnKBias,"attn_k.bias",false⟩,⟨.attnVBias,"attn_v.bias",false⟩,
   ⟨.attnOut,"attn_output",true⟩,⟨.ffnGate,"ffn_gate",true⟩,⟨.ffnDown,"ffn_down",true⟩,⟨.ffnUp,"ffn_up",true⟩]
def gemma3LayerMap : List LayerTensorMap :=
  [⟨.attnNorm,"attn_norm",true⟩,⟨.attnQ,"attn_q",true⟩,⟨.attnK,"attn_k",true⟩,⟨.attnV,"attn_v",true⟩,
   ⟨.attnQNorm,"attn_q_norm",false⟩,⟨.attnKNorm,"attn_k_norm",false⟩,⟨.attnOut,"attn_output",true⟩,
   ⟨.postAttnNorm,"post_attention_norm",false⟩,⟨.ffnNorm,"ffn_norm",false⟩,⟨.ffnPostNorm,"post_ffw_norm",false⟩,
   ⟨.ffnGate,"ffn_gate",true⟩,⟨.ffnDown,"ffn_down",true⟩,⟨.ffnUp,"ffn_up",true⟩]
def falconH1LayerMap : List LayerTensorMap :=
  [⟨.attnNorm,"attn_norm",true⟩,⟨.attnQ,"attn_q",true⟩,⟨.attnK,"attn_k",true⟩,⟨.attnV,"attn_v",true⟩,
   ⟨.attnQBias,"attn_q.bias",false⟩,⟨.attnKBias,"attn_k.bias",false⟩,⟨.attnVBias,"attn_v.bias",false⟩,
   ⟨.attnOut,"attn_output",true⟩,⟨.ffnNorm,"ffn_norm",true⟩,⟨.ffnGate,"ffn_gate",true⟩,
   ⟨.ffnDown,"ffn_down",true⟩,⟨.ffnUp,"ffn_up",true⟩,⟨.ssmIn,"ssm_in",true⟩,⟨.ssmConv1d,"ssm_conv1d",true⟩,
   ⟨.ssmConv1dBias,"ssm_conv1d.bias",false⟩,⟨.ssmA,"ssm_a",true⟩,⟨.ssmD,"ssm_d",true⟩,
   ⟨.ssmDtBias,"ssm_dt.bias",true⟩,⟨.ssmNorm,"ssm_norm",false⟩,⟨.ssmOut,"ssm_out",true⟩]
def unknownLayerMap : List LayerTensorMap :=
  [⟨.attnNorm,"attn_norm",false⟩,⟨.attnQ,"attn_q",false⟩,⟨.attnK,"attn_k",false⟩,⟨.attnV,"attn_v",false⟩,
   ⟨.attnQkv,"attn_qkv",false⟩,⟨.attnOut,"attn_output",false⟩,⟨.ffnGate,"ffn_gate",false⟩,
   ⟨.ffnDown,"ffn_down",false⟩,⟨.ffnUp,"ffn_up",false⟩]

-- Falcon has no map of its own and falls back to the generic one.
def archTensorMap : ModelArch → List TensorMapEntry
  | .llama => llamaTensorMap
  | .qwen2 | .qwen3 => qwen2TensorMap
  | .deepseek => deepseekTensorMap
  | .falconH1 => falconH1TensorMap
  | .gemma3 => gemma3TensorMap
  | .unknown | .falcon => unknownTensorMap

def archLayerMap : ModelArch → List LayerTensorMap
  | .llama => llamaLayerMap
  | .qwen2 | .qwen3 => qwen2LayerMap
  | .deepseek => deepseekLayerMap
  | .falconH1 => falconH1LayerMap
  | .gemma3 => gemma3LayerMap
  | .unknown | .falcon => unknownLayerMap

structure Model where
  file : MappedFile
  version : Nat
  alignment : Nat
  arch : ModelArch
  archName : List UInt8
  kv : List KV
  tensor : List TensorInfo
deriving DecidableEq

def modelFindKv (m : Model) (s : String) : Option KV := m.kv.find? (fun v => keyStreq v.key s)
def modelFindTensor (m : Model) (s : String) : Option TensorInfo := m.tensor.find? (fun t => keyStreq t.key s)

def readAt (m : Model) (at' : Nat) (p : Parse α) : Option α :=
  match (p (cursorAt m.file at')).1 with
  | .ok a => some a
  | .error () => none

def modelGetKey (m : Model) (s : String) : Option Key :=
  match modelFindKv m s with
  | none => none
  | some v => if v.type = valueString then readAt m v.valuePos cursorKey else none

def modelGetI32 (m : Model) (s : String) : Option Int :=
  match modelFindKv m s with
  | none => none
  | some v => if v.type = valueUint32 then (readAt m v.valuePos cursorU32).map i32 else none

structure ArrayRef where
  type : Nat
  len : Nat
  dataPos : Nat
deriving Repr,DecidableEq

def cursorArray : Parse ArrayRef := do
  let type ← cursorU32
  let len ← cursorU64
  let dataPos ← Run.position
  return ⟨type,len,dataPos⟩

def modelGetArray (m : Model) (s : String) : Option ArrayRef :=
  match modelFindKv m s with
  | none => none
  | some v => if v.type = valueArray then readAt m v.valuePos cursorArray else none

-- The width and signedness model_get_int reads each integer type with.
def intType : Nat → Option (Nat × Bool)
  | 0 => some (1,false) | 1 => some (1,true) | 2 => some (2,false) | 3 => some (2,true)
  | 4 => some (4,false) | 5 => some (4,true) | 10 => some (8,true) | 11 => some (8,true)
  | _ => none

def modelGetInt (m : Model) (s : String) : Option Int :=
  match modelFindKv m s with
  | none => none
  | some v =>
    match intType v.type with
    | none => none
    | some (width,signed) =>
      (readAt m v.valuePos (cursorRead width)).map fun bytes =>
        if signed then Int.bmod (leNat bytes) (256^width) else leNat bytes

def archOf (name : Key) : Option ModelArch :=
  if keyStreq name "llama" then some .llama
  else if keyStreq name "qwen2" then some .qwen2
  else if keyStreq name "qwen35" then some .qwen3
  else if keyStreq name "deepseek2" then some .deepseek
  else if keyStreq name "falcon" then some .falcon
  else if keyStreq name "falcon-h1" then some .falconH1
  else if keyStreq name "gemma3" then some .gemma3
  else none

-- char arch_name[32].
def modelDetectArch (m : Model) : Except Exit Model :=
  match modelGetKey m "general.architecture" with
  | none => .ok {m with arch:=.unknown}
  | some name =>
    match archOf name with
    | none => .error (.report "Unknown architecture: %s, can't to support." [] name.bytes)
    | some arch => .ok {m with arch:=arch,archName:=name.content.take (min name.len 31)}

def isDigit (b : UInt8) : Bool := 48 ≤ b.toNat ∧ b.toNat ≤ 57

-- Both layer-name loops: decimal digits accumulated in a u32, and what follows.
def blkDigits : Nat → List UInt8 → Nat × List UInt8
  | n,[] => (n,[])
  | n,b :: rest => if isDigit b then blkDigits (u32 (n*10+(b.toNat-48))) rest else (n,b :: rest)

def dot : UInt8 := 46

-- model_count_layers on one name; it wants at least one digit.
def countedLayer (name : List UInt8) : Option Nat :=
  if name.length < 5 ∨ name.take 4 ≠ cstr "blk." then none
  else
    let (n,rest) := blkDigits 0 (name.drop 4)
    if rest.length < (name.drop 4).length ∧ rest.head? = some dot then some n else none

def modelCountLayers (m : Model) : Nat :=
  let maxN := m.tensor.foldl (fun maxN t =>
    match countedLayer t.key.bytes with
    | some n => if n ≥ maxN then n else maxN
    | none => maxN) 0
  u32 (maxN+1)

def stripWeight (s : List UInt8) : List UInt8 :=
  if s.length > 7 ∧ s.drop (s.length-7) = cstr ".weight" then s.take (s.length-7) else s

-- layer_tensor_parse: the layer and the suffix without ".weight".
def layerTensorParse (name : List UInt8) : Option (Nat × List UInt8) :=
  if name.length < 7 ∨ name.take 4 ≠ cstr "blk." then none
  else
    match blkDigits 0 (name.drop 4) with
    | (n,b :: s) => if b = dot then some (n,stripWeight s) else none
    | (_,[]) => none

def roleOf (map : List LayerTensorMap) (suffix : List UInt8) : Option TensorRole :=
  (map.find? (fun e => cstr e.suffix == suffix)).map LayerTensorMap.role

-- A pointer into m->tensor is an index; none is NULL.
abbrev LayerTable := Nat → TensorRole → Option Nat

def LayerTable.bind (table : LayerTable) (l : Nat) (r : TensorRole) (i : Nat) : LayerTable :=
  fun l' r' => if l' = l ∧ r' = r then some i else table l' r'

def layerSlot (map : List LayerTensorMap) (nLayer : Nat) (t : TensorInfo) : Option (Nat × TensorRole) :=
  match layerTensorParse t.key.bytes with
  | none => none
  | some (n,suffix) => if n ≥ nLayer then none else (roleOf map suffix).map fun r => (n,r)

def layersWeightsFrom (map : List LayerTensorMap) (nLayer : Nat) : Nat → List TensorInfo → LayerTable → LayerTable
  | _,[],table => table
  | i,t :: rest,table =>
    layersWeightsFrom map nLayer (i+1) rest
      (match layerSlot map nLayer t with
       | some (n,r) => table.bind n r i
       | none => table)

def layersWeightsLoad (m : Model) (nLayer : Nat) : LayerTable :=
  layersWeightsFrom (archLayerMap m.arch) nLayer 0 m.tensor (fun _ _ => none)

structure Weights where
  nLayer : Nat
  tensors : TensorRole → Option Nat
  layers : LayerTable

def topTensors (m : Model) : List TensorMapEntry → (TensorRole → Option Nat) → Except Exit (TensorRole → Option Nat)
  | [],table => .ok table
  | e :: rest,table =>
    let t := m.tensor.findIdx? (fun t => keyStreq t.key e.name)
    if t = none ∧ e.required then .error (.report "Required tensor is missing: %s" [] (cstr e.name))
    else topTensors m rest (fun r => if r = e.role then t else table r)

def weightsLoad (m : Model) : Except Exit Weights :=
  match topTensors m (archTensorMap m.arch) (fun _ => none) with
  | .error e => .error e
  | .ok table =>
    let tied := fun r => if r = .output ∧ table .output = none then table .tokenEmbd else table r
    let nLayer := modelCountLayers m
    .ok ⟨nLayer,tied,layersWeightsLoad m nLayer⟩

def layerTensorFound (m : Model) (l : Nat) (e : LayerTensorMap) : Bool :=
  m.tensor.any fun t => layerTensorParse t.key.bytes == some (l,cstr e.suffix)

def layerTensorName (l : Nat) (suffix : List UInt8) : List UInt8 :=
  cstr "blk."++cstr (toString l)++[dot]++suffix

def splitCheck (m : Model) : Except Exit Unit :=
  let splitNo := (modelGetInt m "split.no").getD (-1)
  match modelGetInt m "split.count" with
  | some count =>
    if count > 1 then
      .error (.report "Incomplete model: this file is shard %d of %d (split.count=%d); a split GGUF needs all %d parts to form a complete model."
        [Int.bmod (splitNo+1) (2^32),Int.bmod count (2^32),Int.bmod count (2^32),Int.bmod count (2^32)] [])
    else .ok ()
  | none => .ok ()

def missingTop (m : Model) : Option TensorMapEntry :=
  (archTensorMap m.arch).find? fun e => e.required && (modelFindTensor m e.name).isNone

def missingLayer (m : Model) : Option (Nat × LayerTensorMap) :=
  (List.range (modelCountLayers m)).findSome? fun l =>
    ((archLayerMap m.arch).find? fun e => e.required && !layerTensorFound m l e).map fun e => (l,e)

def exceedsFile (m : Model) (t : TensorInfo) : Bool :=
  t.offset > m.file.size ∨ t.bytes > m.file.size-t.offset

def modelCompletenessCheck (m : Model) : Except Exit Unit := do
  splitCheck m
  match missingTop m with
  | some e => throw (.report "Incomplete model: required tensor %s is missing." [] (cstr e.name))
  | none => pure ()
  match missingLayer m with
  | some (l,e) => throw (.report "Incomplete model: required tensor %s is missing." []
      (layerTensorName l (cstr e.suffix)++cstr ".weight"))
  | none => pure ()
  match m.tensor.find? (exceedsFile m) with
  | some t => throw (.report "Incomplete model: tensor %s (offset=%lu, bytes=%lu) exceeds file size %lu."
      [t.offset,t.bytes,m.file.size] t.key.bytes)
  | none => pure ()

def placeTensors (f : MappedFile) (s : Sections) (post : Nat) : Model :=
  ⟨f,s.version,s.alignment,.unknown,[],s.kv,s.tensor.map (TensorInfo.place (dataBase post s.alignment))⟩

def modelLoadIn (p : Process) (f : MappedFile) : Except Exit Model := do
  if f.size < 32 then throw (.report "Model file is too small to be GGUF." [] [])
  match sectionsLoad p f (cursorAt f 0) with
  | (.error e,_) => throw e
  | (.ok s,c) =>
    let m ← modelDetectArch (placeTensors f s c.post)
    modelCompletenessCheck m
    return m

def modelLoad (f : MappedFile) : Except Exit Model := modelLoadIn started f

theorem modelLoad_eq (f : MappedFile) : modelLoad f = (do
    if f.size < 32 then throw (.report "Model file is too small to be GGUF." [] [])
    match modelSections f (cursorAt f 0) with
    | (.error e,_) => throw e
    | (.ok s,c) =>
      let m ← modelDetectArch (placeTensors f s c.post)
      modelCompletenessCheck m
      return m) := rfl

theorem modelLoad_detected (large : ¬ f.size < 32) (parsed : modelSections f (cursorAt f 0) = (.ok s,c))
    (arch : modelDetectArch (placeTensors f s c.post) = .ok m) (complete : modelCompletenessCheck m = .ok ()) :
    modelLoad f = .ok m := by
  simp only [modelLoad_eq,if_neg large,parsed,arch,complete,Bind.bind,Except.bind,pure,Except.pure]

end TinyLlama.Gguf
