import TinyLlama.Gguf.Bounds
import TinyLlama.Gguf.Placement
import TinyLlama.Gguf.Layers
import TinyLlama.Vocabulary.Lookup
import TinyLlama.Tokenizer.Lossless
import TinyLlama.Tokenizer.SpmLossless
import TinyLlama.Pthreads.ExactlyOnce
import TinyLlama.Graph.Walk
import TinyLlama.Server.WorkerPool
import TinyLlama.Server.Extraction
import TinyLlama.Server.Answer
import TinyLlama.Server.Framing
import TinyLlama.Asctx.Soundness
import TinyLlama.Graph.Oriented
import TinyLlama.Server.Stream
import TinyLlama.Server.Clients
import TinyLlama.Tokenizer.Prompts
import TinyLlama.Engine.AutoContext
import TinyLlama.Quants.Inside
import TinyLlama.Quants.DotExact
import TinyLlama.Engine.Shapes
import TinyLlama.Gpu.Int8Kernels
import TinyLlama.Cpu.History
import TinyLlama.Cpu.Conv
import TinyLlama.Gpu.Attention
import TinyLlama.Graph.KvCache
import TinyLlama.Gpu.WeightCache
import TinyLlama.Quants.Vdot
import TinyLlama.Engine.Split
import TinyLlama.Cpu.MatMulExact
import TinyLlama.Server.Codec
import TinyLlama.Sampler.Penalty
import TinyLlama.Vocabulary.FiniteMap
import TinyLlama.Tokenizer.BpeMerge
import TinyLlama.Cpu.Delta
import TinyLlama.Cpu.Scan
import TinyLlama.Tokenizer.Pattern
import TinyLlama.Tokenizer.SpecialTokens
import TinyLlama.Sampler.Exact
import TinyLlama.Graph.Forgotten
import TinyLlama.Chat.Utf8
import TinyLlama.Server.Escape
import TinyLlama.Engine.GroupedHeads
import TinyLlama.Cpu.Rope
import TinyLlama.Tokenizer.PromptBuffer
import TinyLlama.Asctx.Wrappers
import TinyLlama.Engine.PlanRuns
import TinyLlama.Engine.KvBudget
import TinyLlama.Lib.Triples
import TinyLlama.Lib.Causal
import TinyLlama.Graph.Meaning
import TinyLlama.Graph.Builders
import TinyLlama.Graph.Decoder
import TinyLlama.Engine.Decoded
import TinyLlama.Graph.Streams
import TinyLlama.Graph.Recorded
import TinyLlama.Cpu.Elementwise
import TinyLlama.Cpu.Recurrent
import TinyLlama.Cpu.Dispatch
import TinyLlama.Cpu.Stateful
import TinyLlama.Engine.CpuRuns
