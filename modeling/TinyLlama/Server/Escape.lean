import Mathlib.Data.List.GetD
import TinyLlama.Server.Codec

-- http.c: json_escape_str store by store. snprintf puts its NUL behind the six bytes of an escape.
namespace TinyLlama.Server

def storesAt : Nat → List UInt8 → List (Nat × UInt8)
  | _,[] => []
  | w,b :: rest => (w,b) :: storesAt (w+1) rest

-- snprintf(out+w,size,..) of a text.
def snprintfStores (w size : Nat) (text : List UInt8) : List (Nat × UInt8) :=
  if size = 0 then [] else storesAt w (text.take (size-1)++[0])

-- What the switch has no case for and is below 0x20.
def numericEscape (c : UInt8) : Prop := c < 0x20 ∧ c ≠ 10 ∧ c ≠ 13 ∧ c ≠ 9 ∧ c ≠ 8 ∧ c ≠ 12

instance : DecidablePred numericEscape := fun c => inferInstanceAs (Decidable (c < 0x20 ∧ c ≠ 10 ∧ c ≠ 13 ∧ c ≠ 9 ∧ c ≠ 8 ∧ c ≠ 12))

def escapeStores (outLen : Int) (w : Nat) (c : UInt8) : List (Nat × UInt8) :=
  if numericEscape c then snprintfStores w (outLen-w).toNat (jsonEscapeByte c) else storesAt w (jsonEscapeByte c)

-- The stores in order, and w at the end.
def escapeRun (outLen : Int) : Nat → List UInt8 → List (Nat × UInt8) × Nat
  | w,[] => ([],w)
  | w,c :: rest =>
    if i32 (w+6) < outLen then
      let later := escapeRun outLen (w+(jsonEscapeByte c).length) rest
      (escapeStores outLen w c++later.1,later.2)
    else ([],w)

def written (mem : Nat → UInt8) (stores : List (Nat × UInt8)) : Nat → UInt8 := stores.foldl (fun mem s => Function.update mem s.1 s.2) mem

-- out[0], ..., out[w-1] after the call.
def escapedText (outLen : Int) (mem : Nat → UInt8) (s : List UInt8) : List UInt8 :=
  (List.range (escapeRun outLen 0 s).2).map (written mem (escapeRun outLen 0 s).1)

section Stores
variable {outLen : Int} {w p : Nat} {mem : Nat → UInt8} {c : UInt8}

theorem written_append (mem : Nat → UInt8) (one two : List (Nat × UInt8)) : written mem (one++two) = written (written mem one) two :=
  List.foldl_append

theorem storesAt_inside (bytes : List UInt8) : ∀ w,∀ st ∈ storesAt w bytes,st.1 < w+bytes.length := by
  induction bytes with
  | nil => exact fun w st listed => by cases listed
  | cons b rest ih =>
    intro w st listed
    rw [List.length_cons]
    cases List.mem_cons.mp listed with
    | inl here =>
      rw [here]
      exact Nat.lt_add_of_pos_right (Nat.succ_pos _)
    | inr later =>
      have inside := ih (w+1) st later
      omega

theorem written_storesAt (bytes : List UInt8) : ∀ w mem p,written mem (storesAt w bytes) p =
    if w ≤ p ∧ p < w+bytes.length then bytes.getD (p-w) 0 else mem p := by
  induction bytes with
  | nil =>
    intro w mem p
    rw [if_neg (by simp only [List.length_nil]; omega)]
    rfl
  | cons b rest ih =>
    intro w mem p
    have step : written mem (storesAt w (b :: rest)) = written (Function.update mem w b) (storesAt (w+1) rest) := rfl
    rw [step,ih (w+1),List.length_cons]
    by_cases here : p = w
    · rw [if_neg (by omega),if_pos (by omega),here,Function.update_self,Nat.sub_self]
      rfl
    · rw [Function.update_of_ne here]
      by_cases inside : w+1 ≤ p ∧ p < w+1+rest.length
      · obtain ⟨d,offset⟩ : ∃ d,p-w = d+1 := ⟨p-w-1,by omega⟩
        rw [if_pos inside,if_pos (by omega),offset,show p-(w+1) = d by omega]
        rfl
      · rw [if_neg inside,if_neg (by omega)]

theorem jsonEscapeByte_numeric (numeric : numericEscape c) : (jsonEscapeByte c).length = 6 := by
  obtain ⟨control,line,return',tab,back,feed⟩ := numeric
  have notQuote : c ≠ 34 := by
    rintro rfl
    exact absurd control (by decide)
  have notSlash : c ≠ 92 := by
    rintro rfl
    exact absurd control (by decide)
  rw [jsonEscapeByte,if_neg notQuote,if_neg notSlash,if_neg line,if_neg return',if_neg tab,if_neg back,if_neg feed,if_pos control]
  rfl

theorem escapeStores_spec (room : (w : Int)+6 < outLen) (c : UInt8) :
    (∀ st ∈ escapeStores outLen w c,(st.1 : Int) < outLen) ∧
      ∀ mem p,p < w+(jsonEscapeByte c).length → written mem (escapeStores outLen w c) p =
        if w ≤ p then (jsonEscapeByte c).getD (p-w) 0 else mem p := by
  unfold escapeStores
  split
  · next numeric =>
    have six := jsonEscapeByte_numeric numeric
    have whole : (jsonEscapeByte c).take ((outLen-w).toNat-1) = jsonEscapeByte c := List.take_of_length_le (by omega)
    rw [snprintfStores,if_neg (by omega),whole]
    refine ⟨fun st listed => ?_,fun mem p low => ?_⟩
    · have inside := storesAt_inside _ w st listed
      rw [List.length_append,six,List.length_singleton] at inside
      omega
    · rw [written_storesAt,List.length_append]
      by_cases high : w ≤ p
      · rw [if_pos ⟨high,by omega⟩,if_pos high,List.getD_append _ _ _ _ (by omega)]
      · rw [if_neg (by omega),if_neg high]
  · next short =>
    have six := (expansion_bounds c).2
    unfold expansion at six
    refine ⟨fun st listed => ?_,fun mem p low => ?_⟩
    · have inside := storesAt_inside _ w st listed
      omega
    · rw [written_storesAt]
      exact if_congr (and_iff_left low) rfl rfl

end Stores

section Runs
variable {outLen : Int}

-- The run from w on: it stores below outLen, leaves what is below w, and from w on puts the text.
theorem escapeRun_spec (small : outLen < 2^31-5) (s : List UInt8) : ∀ w,w+6 < 2^31 →
    (∀ st ∈ (escapeRun outLen w s).1,(st.1 : Int) < outLen) ∧
      (escapeRun outLen w s).2 = w+(jsonEscapeStr outLen.toNat w s).length ∧
      ∀ mem p,p < (escapeRun outLen w s).2 → written mem (escapeRun outLen w s).1 p =
        if w ≤ p then (jsonEscapeStr outLen.toNat w s).getD (p-w) 0 else mem p := by
  induction s with
  | nil => exact fun w _ => ⟨fun st listed => (by cases listed),rfl,fun mem p low => (if_neg (Nat.not_le.mpr low)).symm⟩
  | cons c rest ih =>
    intro w fits
    rw [escapeRun,jsonEscapeStr,i32_of_lt fits]
    push_cast
    by_cases room : (w : Int)+6 < outLen
    · have room' : w+6 < outLen.toNat := by omega
      obtain ⟨inside,cell⟩ := escapeStores_spec room c
      have six := (expansion_bounds c).2
      unfold expansion at six
      obtain ⟨inside',end',cell'⟩ := ih (w+(jsonEscapeByte c).length) (by omega)
      rw [if_pos room,if_pos room']
      dsimp only
      refine ⟨fun st listed => ?_,?_,fun mem p low => ?_⟩
      · cases List.mem_append.mp listed with
        | inl here => exact inside st here
        | inr later => exact inside' st later
      · rw [end',List.length_append,Nat.add_assoc]
      · rw [written_append,cell' _ p low]
        by_cases past : w+(jsonEscapeByte c).length ≤ p
        · rw [if_pos past,if_pos (by omega),List.getD_append_right _ _ _ _ (by omega)]
          congr 1
          omega
        · rw [if_neg past,cell mem p (by omega)]
          by_cases from' : w ≤ p
          · rw [if_pos from',if_pos from',List.getD_append _ _ _ _ (by omega)]
          · rw [if_neg from',if_neg from']
    · rw [if_neg room,if_neg (by omega)]
      exact ⟨fun st listed => (by cases listed),rfl,fun mem p low => (if_neg (Nat.not_le.mpr low)).symm⟩

theorem escapedText_eq (small : outLen < 2^31-5) (mem : Nat → UInt8) (s : List UInt8) :
    escapedText outLen mem s = jsonEscapeStr outLen.toNat 0 s := by
  obtain ⟨_,end',cell⟩ := escapeRun_spec small s 0 (by decide)
  rw [Nat.zero_add] at end'
  refine List.ext_getElem (by rw [escapedText,List.length_map,List.length_range,end']) fun p low high => ?_
  rw [escapedText,List.length_map,List.length_range] at low
  simp only [escapedText,List.getElem_map,List.getElem_range]
  rw [cell mem p low,if_pos (Nat.zero_le p),Nat.sub_zero,List.getD_eq_getElem _ _ high]

end Runs

-- `small`: w+6 is an int.
theorem jsonEscape_truncates (s : List UInt8) (outLen : Int) (mem : Nat → UInt8) (small : outLen < 2^31-5) :
    (∀ st ∈ (escapeRun outLen 0 s).1,(st.1 : Int) < outLen) ∧
      ∃ k ≤ s.length,(6*s.length+6 < outLen → k = s.length) ∧ escapedText outLen mem s = escapeAll (s.take k) ∧
        Json.unescape (escapedText outLen mem s) = some (s.take k) ∧ Json.Spelled (escapedText outLen mem s) ∧
        ∀ b ∈ escapedText outLen mem s,32 ≤ b := by
  refine ⟨(escapeRun_spec small s 0 (by decide)).1,?_⟩
  rw [escapedText_eq small]
  obtain ⟨k,upto,whole,front⟩ : ∃ k ≤ s.length,(6*s.length+6 < outLen → k = s.length) ∧
      jsonEscapeStr outLen.toNat 0 s = escapeAll (s.take k) := by
    by_cases roomy : 6*(s.length : Int)+6 < outLen
    · exact ⟨s.length,le_rfl,fun _ => rfl,by rw [List.take_length,jsonEscapeStr_roomy s (by omega)]⟩
    · obtain ⟨k,front⟩ := jsonEscapeStr_front outLen.toNat s 0
      exact ⟨min k s.length,Nat.min_le_right _ _,fun room => absurd room roomy,by rw [front,List.take_eq_take_min]⟩
  obtain ⟨spelled,value⟩ := escapeAll_json (s.take k)
  rw [front]
  exact ⟨k,upto,whole,rfl,value,spelled,spelled.printable⟩

-- An a, a quote and a newline, with room for two of them.
theorem quotedLine_truncates : escapedText 9 (fun _ => 0) [97,34,10] = escapeAll [97,34] ∧
    ∃ k ≤ 3,escapedText 9 (fun _ => 0) [97,34,10] = escapeAll ([97,34,10].take k) ∧
      Json.unescape (escapedText 9 (fun _ => 0) [97,34,10]) = some ([97,34,10].take k) := by
  obtain ⟨_,k,upto,_,text,value,_⟩ := jsonEscape_truncates [97,34,10] 9 (fun _ => 0) (by decide)
  exact ⟨by decide +kernel,k,upto,text,value⟩

end TinyLlama.Server
