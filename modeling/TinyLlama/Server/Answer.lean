import TinyLlama.Lib.Json
import TinyLlama.Machine
import TinyLlama.Tokenizer.Bpe

-- server.c, handle_request: the answer that is not streamed, with http.c's json_escape_str and the three fixed buffers.
namespace TinyLlama.Server

def respCap : Nat := 65536
def jsonCap : Nat := 65536
def jsonWrapperReserve : Nat := 256

-- resp_body: the decoded pieces, each cut to the room left. `none` is a token the vocabulary has no content for.
def respAppend (decode : List UInt8 → Nat → List UInt8) (resp : List UInt8) : Option (List UInt8) → List UInt8
  | none => resp
  | some content => resp++decode content (respCap-resp.length-1)

def respBody (decode : List UInt8 → Nat → List UInt8) (showThink : Bool) (tokens : List (Option (List UInt8))) : List UInt8 :=
  tokens.foldl (respAppend decode) (if showThink then cstr "<think>\n" else [])

def hexDigit (n : Nat) : UInt8 := UInt8.ofNat (if n < 10 then 48+n else 87+n)

-- What json_escape_str writes for one byte, \u00XX for the other control bytes.
def jsonEscapeByte (c : UInt8) : List UInt8 :=
  if c = 34 then [92,34]
  else if c = 92 then [92,92]
  else if c = 10 then [92,110]
  else if c = 13 then [92,114]
  else if c = 9 then [92,116]
  else if c = 8 then [92,98]
  else if c = 12 then [92,102]
  else if c < 0x20 then [92,117,48,48,hexDigit (c.toNat/16),hexDigit (c.toNat%16)]
  else [c]

-- `w` bytes are written; the loop stops as soon as six more might not fit.
def jsonEscapeStr (outLen : Nat) : Nat → List UInt8 → List UInt8
  | _,[] => []
  | w,c :: rest =>
    if w+6 < outLen then jsonEscapeByte c++jsonEscapeStr outLen (w+(jsonEscapeByte c).length) rest else []

-- %ld, %d and %u.
def printed : Int → List UInt8
  | .ofNat n => cstr (toString n)
  | .negSucc n => 45 :: cstr (toString (n+1))

-- The numbers of an answer: time(NULL), the prompt's tokens, the generated ones, and how generation ended.
structure Answer where
  now : Int
  nPrompt : Nat
  nGen : Nat
  hitEos : Bool

def Answer.finish (a : Answer) : List UInt8 := if a.hitEos then cstr "stop" else cstr "length"

-- The text snprintf is to write.
def Answer.json (a : Answer) (escaped : List UInt8) : List UInt8 :=
  cstr "\x7b\"id\":\"chatcmpl-"++printed a.now++
  cstr "\",\"object\":\"chat.completion\",\"created\":"++printed a.now++
  cstr ",\"model\":\"default\",\"choices\":[\x7b\"index\":0,\"message\":\x7b\"role\":\"assistant\",\"content\":\""++escaped++
  cstr "\"\x7d,\"finish_reason\":\""++a.finish++
  cstr "\"\x7d],\"usage\":\x7b\"prompt_tokens\":"++printed (i32 a.nPrompt)++
  cstr ",\"completion_tokens\":"++printed (u32 a.nGen)++
  cstr ",\"total_tokens\":"++printed (i32 (a.nPrompt+a.nGen))++cstr "\x7d\x7d"

-- json_buf up to its NUL, which http_respond sends as the body.
def Answer.sent (a : Answer) (resp : List UInt8) : List UInt8 :=
  ((a.json (jsonEscapeStr (respCap-jsonWrapperReserve-1) 0 resp)).take (jsonCap-1)).takeWhile (· ≠ 0)

-- A run of the loop: the tokens before the end, and what ended it. One token is counted for each.
structure Generation where
  showThink : Bool
  tokens : List (Option (List UInt8))
  hitEos : Bool
  nPrompt : Nat
  now : Int

def Generation.answer (g : Generation) : Answer := ⟨g.now,g.nPrompt,g.tokens.length,g.hitEos⟩

def Generation.resp (decode : List UInt8 → Nat → List UInt8) (g : Generation) : List UInt8 :=
  respBody decode g.showThink g.tokens

-- choices[0].message.content, unescaped.
def answerContent (answer : Json.Value) : Option (List UInt8) := do
  let choices ← answer.get (cstr "choices")
  let choice ← choices.first
  let message ← choice.get (cstr "message")
  let content ← message.get (cstr "content")
  content.string

-- `sent` is one JSON object whose content is `resp`.
def Complete (sent resp : List UInt8) : Prop :=
  ∃ members ts, Json.Text (.obj members) ts ∧ Json.flat ts = sent ∧ answerContent (.obj members) = some resp

-- The object the answer means to be, around a content string.
def Answer.value (a : Answer) (raw : List UInt8) : Json.Value :=
  .obj (.cons (cstr "id") (.str (cstr "chatcmpl-"++printed a.now))
    (.cons (cstr "object") (.str (cstr "chat.completion"))
    (.cons (cstr "created") (.atom (printed a.now))
    (.cons (cstr "model") (.str (cstr "default"))
    (.cons (cstr "choices")
      (.arr (.cons
        (.obj (.cons (cstr "index") (.atom (cstr "0"))
          (.cons (cstr "message")
            (.obj (.cons (cstr "role") (.str (cstr "assistant")) (.cons (cstr "content") (.str raw) .nil)))
          (.cons (cstr "finish_reason") (.str a.finish) .nil)))) .nil))
    (.cons (cstr "usage")
      (.obj (.cons (cstr "prompt_tokens") (.atom (printed (i32 a.nPrompt)))
        (.cons (cstr "completion_tokens") (.atom (printed (u32 a.nGen)))
        (.cons (cstr "total_tokens") (.atom (printed (i32 (a.nPrompt+a.nGen)))) .nil)))) .nil))))))

theorem unescape_name (l : List Char)
    (plain : ((l.map fun c => UInt8.ofNat c.toNat).all fun c => 32 ≤ c && c ≠ Json.quote && c ≠ Json.backslash) = true) :
    Json.unescape (cstr (String.ofList l)) = some (cstr (String.ofList l)) := by
  rw [cstr_ofList,Json.unescape_plain _ plain]

theorem spelled_name (l : List Char)
    (plain : ((l.map fun c => UInt8.ofNat c.toNat).all fun c => 32 ≤ c && c ≠ Json.quote && c ≠ Json.backslash) = true) :
    Json.Spelled (cstr (String.ofList l)) := by
  rw [cstr_ofList]
  exact Json.spelled_plain _ plain

theorem Answer.value_flat (a : Answer) (raw : List UInt8) : Json.flat (a.value raw).tokens = a.json raw := by
  have one : cstr "\x7b\"id\":\"chatcmpl-" = 123 :: 34 :: (cstr "id"++34 :: 58 :: 34 :: cstr "chatcmpl-") := by
    repeat rw [cstr_ofList]
    rfl
  have two : cstr "\",\"object\":\"chat.completion\",\"created\":" =
      34 :: 44 :: 34 :: (cstr "object"++34 :: 58 :: 34 :: (cstr "chat.completion"++34 :: 44 :: 34 :: (cstr "created"++[34,58]))) := by
    repeat rw [cstr_ofList]
    rfl
  have three : cstr ",\"model\":\"default\",\"choices\":[\x7b\"index\":0,\"message\":\x7b\"role\":\"assistant\",\"content\":\"" =
      44 :: 34 :: (cstr "model"++34 :: 58 :: 34 :: (cstr "default"++34 :: 44 :: 34 :: (cstr "choices"++34 :: 58 :: 91 :: 123 ::
      34 :: (cstr "index"++34 :: 58 :: (cstr "0"++44 :: 34 :: (cstr "message"++34 :: 58 :: 123 :: 34 :: (cstr "role"++
      34 :: 58 :: 34 :: (cstr "assistant"++34 :: 44 :: 34 :: (cstr "content"++[34,58,34]))))))))) := by
    repeat rw [cstr_ofList]
    rfl
  have four : cstr "\"\x7d,\"finish_reason\":\"" = 34 :: 125 :: 44 :: 34 :: (cstr "finish_reason"++[34,58,34]) := by
    repeat rw [cstr_ofList]
    rfl
  have five : cstr "\"\x7d],\"usage\":\x7b\"prompt_tokens\":" =
      34 :: 125 :: 93 :: 44 :: 34 :: (cstr "usage"++34 :: 58 :: 123 :: 34 :: (cstr "prompt_tokens"++[34,58])) := by
    repeat rw [cstr_ofList]
    rfl
  have six : cstr ",\"completion_tokens\":" = 44 :: 34 :: (cstr "completion_tokens"++[34,58]) := by
    repeat rw [cstr_ofList]
    rfl
  have seven : cstr ",\"total_tokens\":" = 44 :: 34 :: (cstr "total_tokens"++[34,58]) := by
    repeat rw [cstr_ofList]
    rfl
  have eight : cstr "\x7d\x7d" = [125,125] := cstr_ofList _
  simp only [Answer.json,one,two,three,four,five,six,seven,eight,Answer.value,Json.Value.tokens,Json.Members.more,Json.Items.more,
    Json.flat_cons,Json.flat_nil,Json.Token.flat,Json.quote,Json.comma,Json.colon,Json.openArr,Json.closeArr,
    Json.openObj,Json.closeObj,List.append_assoc,List.cons_append,List.nil_append,List.append_nil]

theorem digits_first (n : Nat) : ∃ c rest, Nat.toDigits 10 n = c :: rest ∧ (0 < n → c ≠ '0') := by
  induction n using Nat.strongRecOn with
  | ind n ih =>
    by_cases small : n < 10
    · refine ⟨n.digitChar,[],Nat.toDigits_of_lt_base small,fun positive => ?_⟩
      have all : ∀ m < 10, 0 < m → m.digitChar ≠ '0' := by decide
      exact all n small positive
    · obtain ⟨c,rest,opens,first⟩ := ih (n/10) (by omega)
      rw [Nat.toDigits_of_base_le (by decide) (by omega),opens]
      exact ⟨c,_,rfl,fun _ => first (by omega)⟩

theorem digit_byte {c : Char} (digit : c.isDigit = true) : Json.isDigit (UInt8.ofNat c.toNat) = true ∧
    (UInt8.ofNat c.toNat = 48 → c = '0') := by
  simp only [Char.isDigit,Bool.and_eq_true,decide_eq_true_eq] at digit
  have low : 48 ≤ c.toNat := digit.1
  have high : c.toNat ≤ 57 := digit.2
  have narrow : (UInt8.ofNat c.toNat).toNat = c.toNat := by simp; omega
  refine ⟨?_,fun zero => ?_⟩
  · simp only [Json.isDigit,Bool.and_eq_true,decide_eq_true_eq,UInt8.le_iff_toNat_le,narrow]
    exact ⟨low,high⟩
  · rw [zero] at narrow
    apply Char.toNat_inj.mp
    exact narrow.symm

theorem decimal_int (n : Nat) : Json.Digits (cstr (toString n)) ∧
    ((cstr (toString n)).head? = some 48 → cstr (toString n) = [48]) := by
  have digits : (toString n).toList = Nat.toDigits 10 n := Nat.toList_repr
  have isDigit : ∀ c ∈ Nat.toDigits 10 n, c.isDigit = true := fun c listed =>
    Nat.isDigit_of_mem_toDigits (by decide) (by decide) listed
  obtain ⟨c,rest,opens,first⟩ := digits_first n
  rw [cstr,digits]
  refine ⟨⟨by rw [opens]; simp,?_⟩,fun zero => ?_⟩
  · rw [List.all_eq_true]
    intro b listed
    obtain ⟨d,present,rfl⟩ := List.mem_map.mp listed
    exact (digit_byte (isDigit d present)).1
  · rw [opens] at zero isDigit
    have isZero := (digit_byte (isDigit c List.mem_cons_self)).2 (Option.some.inj zero)
    have none' : n = 0 := Nat.eq_zero_of_not_pos fun positive => first positive isZero
    subst none'
    decide

theorem printed_atom (z : Int) : Json.IsAtom (printed z) := by
  cases z with
  | ofNat n =>
    exact .inr ⟨[],cstr (toString n),[],[],⟨.inl rfl,decimal_int n,.inl rfl,.inl rfl⟩,by simp [printed]⟩
  | negSucc n =>
    exact .inr ⟨[45],cstr (toString (n+1)),[],[],⟨.inr rfl,decimal_int (n+1),.inl rfl,.inl rfl⟩,by simp [printed]⟩

theorem digits_spelled (digits : Json.Digits ds) : Json.Spelled ds := by
  refine Json.spelled_plain ds (List.all_eq_true.mpr fun c listed => ?_)
  have digit := List.all_eq_true.mp digits.2 c listed
  have all : ∀ n < 256, Json.isDigit (UInt8.ofNat n) = true →
      (32 ≤ UInt8.ofNat n && UInt8.ofNat n ≠ Json.quote && UInt8.ofNat n ≠ Json.backslash) = true := by decide +kernel
  have plain := all c.toNat c.toNat_lt
  rw [UInt8.ofNat_toNat] at plain
  exact plain digit

theorem printed_spelled (z : Int) : Json.Spelled (printed z) := by
  cases z with
  | ofNat n => exact digits_spelled (decimal_int n).1
  | negSucc n => exact .byte 45 _ (by decide) (by decide) (by decide) (digits_spelled (decimal_int (n+1)).1)

theorem hexDigits_value : ∀ n < 32, Json.codeUnit 48 48 (hexDigit (n/16)) (hexDigit (n%16)) = some n ∧
    [48,48,hexDigit (n/16),hexDigit (n%16)].all Json.isHex = true := by decide +kernel

-- One escaped byte is a piece of a JSON string, and unescaping gives the byte back.
theorem jsonEscapeByte_json (c : UInt8) (rest : List UInt8) :
    (Json.Spelled rest → Json.Spelled (jsonEscapeByte c++rest)) ∧
    Json.unescape (jsonEscapeByte c++rest) = (Json.unescape rest).map (c :: ·) := by
  have short (e : UInt8) (known : e ∈ [34,92,47,98,102,110,114,116]) (other : e ≠ 117) (means : Json.escaped e = some c) :
      (Json.Spelled rest → Json.Spelled ([92,e]++rest)) ∧ Json.unescape ([92,e]++rest) = (Json.unescape rest).map (c :: ·) :=
    ⟨fun spelled => .escape e rest known spelled,Json.unescape_escape e c rest means other⟩
  unfold jsonEscapeByte
  split
  · exact short 34 (by decide) (by decide) (by subst c; decide)
  split
  · exact short 92 (by decide) (by decide) (by subst c; decide)
  split
  · exact short 110 (by decide) (by decide) (by subst c; decide)
  split
  · exact short 114 (by decide) (by decide) (by subst c; decide)
  split
  · exact short 116 (by decide) (by decide) (by subst c; decide)
  split
  · exact short 98 (by decide) (by decide) (by subst c; decide)
  split
  · exact short 102 (by decide) (by decide) (by subst c; decide)
  split
  · rename_i control
    have small : c.toNat < 32 := UInt8.lt_iff_toNat_lt.mp control
    obtain ⟨value,hex⟩ := hexDigits_value c.toNat small
    refine ⟨fun spelled => .unicode 48 48 _ _ rest hex spelled,?_⟩
    have back := Json.unescape_unicode 48 48 _ _ rest value (by omega)
    rwa [UInt8.ofNat_toNat] at back
  · rename_i notQuote notSlash _ _ _ _ _ notControl
    exact ⟨fun spelled => .byte c rest (UInt8.not_lt.mp notControl) notQuote notSlash spelled,Json.unescape_byte c rest notSlash⟩

def escapeAll (resp : List UInt8) : List UInt8 := resp.flatMap jsonEscapeByte

theorem escapeAll_json (resp : List UInt8) :
    Json.Spelled (escapeAll resp) ∧ Json.unescape (escapeAll resp) = some resp := by
  induction resp with
  | nil => exact ⟨.nil,rfl⟩
  | cons c rest ih =>
    obtain ⟨spelled,value⟩ := jsonEscapeByte_json c (escapeAll rest)
    change Json.Spelled (jsonEscapeByte c++escapeAll rest) ∧ Json.unescape (jsonEscapeByte c++escapeAll rest) = _
    exact ⟨spelled ih.1,by rw [value,ih.2]; rfl⟩

-- How many bytes the JSON text of a byte takes: 1, 2 or 6.
def expansion (c : UInt8) : Nat := (jsonEscapeByte c).length

def escapedSize (resp : List UInt8) : Nat := (resp.map expansion).sum

theorem escapeAll_length (resp : List UInt8) : (escapeAll resp).length = escapedSize resp := by
  simp only [escapeAll,escapedSize,List.length_flatMap]
  rfl

theorem jsonEscapeStr_front (outLen : Nat) (resp : List UInt8) : ∀ w,
    ∃ k, jsonEscapeStr outLen w resp = escapeAll (resp.take k) := by
  induction resp with
  | nil => exact fun w => ⟨0,rfl⟩
  | cons c rest ih =>
    intro w
    by_cases room : w+6 < outLen
    · obtain ⟨k,front⟩ := ih (w+(jsonEscapeByte c).length)
      exact ⟨k+1,by rw [jsonEscapeStr,if_pos room,front]; rfl⟩
    · exact ⟨0,by rw [jsonEscapeStr,if_neg room]; rfl⟩

-- It writes them all exactly when there is room for six more bytes before the last.
theorem jsonEscapeStr_whole (outLen : Nat) (resp : List UInt8) : ∀ w,
    jsonEscapeStr outLen w resp = escapeAll resp ↔ resp = [] ∨ w+escapedSize resp.dropLast+6 < outLen := by
  induction resp with
  | nil => exact fun w => ⟨fun _ => .inl rfl,fun _ => rfl⟩
  | cons c rest ih =>
    intro w
    have some' : jsonEscapeByte c ≠ [] := by
      unfold jsonEscapeByte
      split_ifs <;> simp
    have cut : escapeAll (c :: rest) = jsonEscapeByte c++escapeAll rest := rfl
    by_cases room : w+6 < outLen
    · rw [jsonEscapeStr,if_pos room,cut,List.append_cancel_left_eq,ih]
      cases rest with
      | nil => simp [escapedSize,room]
      | cons d rest =>
        simp only [reduceCtorEq,false_or,List.dropLast_cons_cons,escapedSize,List.map_cons,List.sum_cons,expansion]
        omega
    · rw [jsonEscapeStr,if_neg room,cut]
      constructor
      · intro none'
        exact absurd (List.append_eq_nil_iff.mp none'.symm).1 some'
      · rintro (none' | room')
        · simp at none'
        · omega

theorem Answer.value_good (a : Answer) (spelled : Json.Spelled raw) : (a.value raw).Good := by
  have finish : Json.Spelled a.finish := by
    unfold Answer.finish
    split <;> exact spelled_name _ rfl
  have plain : ∀ name ∈ ["id","object","chat.completion","created","model","default","choices","index","message","role",
      "assistant","content","finish_reason","usage","prompt_tokens","completion_tokens","total_tokens","chatcmpl-"],
      Json.Spelled (cstr name) := by
    simp only [List.forall_mem_cons]
    refine ⟨?_,?_,?_,?_,?_,?_,?_,?_,?_,?_,?_,?_,?_,?_,?_,?_,?_,?_,nofun⟩ <;> exact spelled_name _ rfl
  have zero : Json.IsAtom (cstr "0") := printed_atom 0
  simp only [Answer.value,Json.Value.Good,Json.Members.Good,Json.Items.Good]
  exact ⟨plain _ (by simp),(plain "chatcmpl-" (by simp)).append (printed_spelled _),
    plain _ (by simp),plain _ (by simp),
    plain _ (by simp),printed_atom _,
    plain _ (by simp),plain _ (by simp),
    plain _ (by simp),⟨⟨plain _ (by simp),zero,
      plain _ (by simp),⟨plain _ (by simp),plain _ (by simp),plain _ (by simp),spelled,trivial⟩,
      plain _ (by simp),finish,trivial⟩,trivial⟩,
    plain _ (by simp),⟨plain _ (by simp),printed_atom _,plain _ (by simp),printed_atom _,plain _ (by simp),printed_atom _,trivial⟩,
    trivial⟩

theorem Answer.value_content (a : Answer) (raw : List UInt8) : answerContent (a.value raw) = Json.unescape raw := by
  have skipped : ∀ name ∈ ["id","object","created","model"], ¬ Json.unescape (cstr name) = some (cstr "choices") := by
    simp only [List.forall_mem_cons]
    refine ⟨?_,?_,?_,?_,nofun⟩ <;> rw [unescape_name _ rfl,cstr_ofList,cstr_ofList] <;> decide
  have choices : Json.unescape (cstr "choices") = some (cstr "choices") := unescape_name _ rfl
  have index : ¬ Json.unescape (cstr "index") = some (cstr "message") := by
    rw [unescape_name _ rfl,cstr_ofList,cstr_ofList]
    decide
  have message : Json.unescape (cstr "message") = some (cstr "message") := unescape_name _ rfl
  have role : ¬ Json.unescape (cstr "role") = some (cstr "content") := by
    rw [unescape_name _ rfl,cstr_ofList,cstr_ofList]
    decide
  have content : Json.unescape (cstr "content") = some (cstr "content") := unescape_name _ rfl
  have id := skipped "id" (by simp)
  have object := skipped "object" (by simp)
  have created := skipped "created" (by simp)
  have model := skipped "model" (by simp)
  simp [answerContent,Answer.value,Json.Value.get,Json.Members.get,Json.Value.first,Json.Value.string,id,object,created,model,
    choices,index,message,role,content]

-- The bytes around the content.
def Answer.wrapper (a : Answer) : Nat :=
  225+2*(printed a.now).length+a.finish.length+(printed (i32 a.nPrompt)).length+(printed (u32 a.nGen)).length+
    (printed (i32 (a.nPrompt+a.nGen))).length

theorem Answer.json_length (a : Answer) (raw : List UInt8) : (a.json raw).length = a.wrapper+raw.length := by
  have one : (cstr "\x7b\"id\":\"chatcmpl-").length = 16 := cstr_length _
  have two : (cstr "\",\"object\":\"chat.completion\",\"created\":").length = 39 := cstr_length _
  have three : (cstr ",\"model\":\"default\",\"choices\":[\x7b\"index\":0,\"message\":\x7b\"role\":\"assistant\",\"content\":\"").length =
      82 := cstr_length _
  have four : (cstr "\"\x7d,\"finish_reason\":\"").length = 20 := cstr_length _
  have five : (cstr "\"\x7d],\"usage\":\x7b\"prompt_tokens\":").length = 29 := cstr_length _
  have six : (cstr ",\"completion_tokens\":").length = 21 := cstr_length _
  have seven : (cstr ",\"total_tokens\":").length = 16 := cstr_length _
  have eight : (cstr "\x7d\x7d").length = 2 := cstr_length _
  simp only [Answer.json,List.length_append,one,two,three,four,five,six,seven,eight,Answer.wrapper]
  omega

theorem takeWhile_all {p : UInt8 → Bool} : ∀ {s : List UInt8}, (∀ c ∈ s, p c = true) → s.takeWhile p = s
  | [],_ => rfl
  | c :: s,all => by
    rw [List.takeWhile_cons_of_pos (all c List.mem_cons_self),takeWhile_all fun d listed => all d (List.mem_cons_of_mem c listed)]

-- Cut anywhere, the answer is no object's text; whole, it is one, with the content given.
theorem Answer.complete_front (a : Answer) (spelled : Json.Spelled raw) :
    Complete (((a.json raw).take n).takeWhile (· ≠ 0)) resp ↔ (a.json raw).length ≤ n ∧ Json.unescape raw = some resp := by
  have text := (a.value raw).text (a.value_good spelled)
  have whole := a.value_flat raw
  have plain := Json.Valid.no_nul _ text.valid
  rw [whole] at plain
  have through : ((a.json raw).take n).takeWhile (· ≠ 0) = (a.json raw).take n :=
    takeWhile_all fun c listed => decide_eq_true (plain c (List.mem_of_mem_take listed))
  rw [through]
  constructor
  · rintro ⟨members,ts,spells,cut,content⟩
    have same : Json.flat ts++(a.json raw).drop n = Json.flat (a.value raw).tokens := by
      rw [cut,List.take_append_drop,whole]
    obtain ⟨equal,vs,split,rest,blank⟩ := spells.unique text same
    refine ⟨Nat.not_lt.mp fun longer => ?_,?_⟩
    · -- What was cut off ends in a brace, which is no blank.
      obtain ⟨init,ends⟩ : ∃ init, a.json raw = init++[125] :=
        ⟨_,by rw [Answer.json,show cstr "\x7d\x7d" = [125]++[125] from cstr_ofList _,← List.append_assoc]⟩
      have brace : (125 : UInt8) ∈ (a.json raw).drop n := by
        rw [ends,List.length_append,List.length_singleton] at longer
        rw [ends,List.drop_append_of_le_length (by omega)]
        exact List.mem_append_right _ (List.mem_singleton.mpr rfl)
      have blanks := Json.blanks_flat (Json.Valid.append_right ts (split ▸ text.valid)) blank 125 (rest ▸ brace)
      exact absurd blanks (by decide)
    · rw [← a.value_content raw,equal,content]
  · rintro ⟨fits,value⟩
    rw [List.take_of_length_le fits]
    exact ⟨_,_,text,whole,by rw [← value,← a.value_content raw]; rfl⟩

theorem Answer.complete_iff (a : Answer) (resp : List UInt8) : Complete (a.sent resp) resp ↔
    (resp = [] ∨ escapedSize resp.dropLast+6 < respCap-jsonWrapperReserve-1) ∧ a.wrapper+escapedSize resp < jsonCap := by
  obtain ⟨k,front⟩ := jsonEscapeStr_front (respCap-jsonWrapperReserve-1) resp 0
  have escapes := jsonEscapeStr_whole (respCap-jsonWrapperReserve-1) resp 0
  rw [Nat.zero_add] at escapes
  obtain ⟨spelled,value⟩ := escapeAll_json (resp.take k)
  rw [Answer.sent,front,a.complete_front spelled,value,a.json_length,escapeAll_length,← escapes,front]
  constructor
  · rintro ⟨fits,same⟩
    rw [Option.some.inj same] at fits ⊢
    refine ⟨rfl,?_⟩
    simp only [jsonCap] at fits ⊢
    omega
  · rintro ⟨same,fits⟩
    have value' := (escapeAll_json resp).2
    rw [← same,value] at value'
    rw [Option.some.inj value']
    refine ⟨?_,rfl⟩
    simp only [jsonCap] at fits ⊢
    omega

theorem answer_complete_iff (decode : List UInt8 → Nat → List UInt8) (g : Generation) :
    Complete (g.answer.sent (g.resp decode)) (g.resp decode) ↔
    (g.resp decode = [] ∨ escapedSize (g.resp decode).dropLast+6 < respCap-jsonWrapperReserve-1) ∧
      g.answer.wrapper+escapedSize (g.resp decode) < jsonCap := g.answer.complete_iff _

def longGeneration : Generation := ⟨false,List.replicate 256 (some (List.replicate 255 97)),false,9,1700000000⟩

theorem decodeLoop_letters (n : Nat) : ∀ room, n ≤ room → Tokenizer.decodeLoop room (List.replicate n 97) = List.replicate n 97 := by
  induction n with
  | zero => intro room _; cases room <;> rfl
  | succ n ih =>
    intro room enough
    obtain ⟨room,rfl⟩ : ∃ r, room = r+1 := ⟨room-1,by omega⟩
    have letter : 0x21 ≤ (97 : UInt8).toNat ∧ (97 : UInt8).toNat ≤ 0x7E := by decide
    rw [List.replicate_succ,Tokenizer.decodeLoop.eq_def]
    exact (if_pos letter).trans (by rw [ih room (by omega)])

theorem respBody_letters (k : Nat) : ∀ n, n+255*k < respCap →
    (List.replicate k (some (List.replicate 255 97))).foldl (respAppend Tokenizer.qwen25Decode) (List.replicate n 97) =
      List.replicate (n+255*k) 97 := by
  induction k with
  | zero => intro n _; rfl
  | succ k ih =>
    intro n room
    have piece := decodeLoop_letters 255 (respCap-n-1) (by omega)
    rw [List.replicate_succ,List.foldl_cons,respAppend,List.length_replicate,Tokenizer.qwen25Decode,piece,
      List.replicate_append_replicate,ih (n+255) (by omega)]
    congr 1
    omega

theorem escapedSize_letters (n : Nat) : escapedSize (List.replicate n 97) = n := by
  simp [escapedSize,show expansion 97 = 1 by decide]

theorem letters_cut (a : Answer) (n : Nat) (long : 65273 < n) : ¬ Complete (a.sent (List.replicate n 97)) (List.replicate n 97) := by
  intro complete
  rcases ((a.complete_iff _).mp complete).1 with none' | room
  · have empty : n = 0 := by simpa using none'
    omega
  · rw [List.dropLast_replicate,escapedSize_letters] at room
    simp only [respCap,jsonWrapperReserve] at room
    omega

theorem longGeneration_resp : longGeneration.resp Tokenizer.qwen25Decode = List.replicate 65280 97 :=
  (respBody_letters 256 0 (by decide)).trans (congrArg (fun n => List.replicate n 97) (by decide : 0+255*256 = 65280))

theorem longGeneration_cut : longGeneration.resp Tokenizer.qwen25Decode = List.replicate 65280 97 ∧
    ¬ Complete (longGeneration.answer.sent (longGeneration.resp Tokenizer.qwen25Decode))
      (longGeneration.resp Tokenizer.qwen25Decode) := by
  rw [longGeneration_resp]
  exact ⟨rfl,letters_cut _ _ (by decide)⟩

end TinyLlama.Server
