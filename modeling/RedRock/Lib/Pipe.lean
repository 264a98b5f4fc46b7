import RedRock.Lib.Bytes

/-!
Messages over a pipe. A message is a head of fixed length and a body with its length in
front. It is written by several calls, one after the other, each in chunks of any size,
and read field by field: no read asks for bytes beyond the field it is reading.
-/

namespace RedRock.Lib
open List Option

def message {w : Nat} (head : Bytes) (body : Blob w) : Bytes := head ++ putBlob body

/-- How many bytes a reader that has `got` asks for: what is missing of the `h` bytes of
the head, then of the `w` bytes of the length, then of the body. -/
def want (h w : Nat) (got : Bytes) : Nat :=
  if got.length < h then h - got.length
  else if got.length < h + w then h + w - got.length
  else h + w + leNat ((got.drop h).take w) - got.length

section Message
variable {h w : Nat} {head got rest : Bytes} {body : Blob w}

lemma message_length (hh : head.length = h) :
    (message head body).length = h + w + body.val.length := by
  simp only [message,putBlob,length_append,leBytes_length]
  omega

lemma message_take (hh : head.length = h) : (message head body).take h = head := take_left' hh

lemma message_drop (body : Blob w) (hh : head.length = h) :
    (message head body).drop (h + w) = body.val := by
  have hl : (head ++ leBytes w body.val.length).length = h + w := by
    simp only [length_append,leBytes_length,hh]
  rw [message,putBlob,← append_assoc,drop_left' hl]

lemma length_field (hh : head.length = h) (he : got ++ rest = message head body)
    (hl : h + w ≤ got.length) : (got.drop h).take w = leBytes w body.val.length := by
  have hd : (got.drop h).take w = ((got ++ rest).drop h).take w := by
    rw [drop_append_of_le_length (by omega),take_append_of_le_length (by
      rw [length_drop]
      omega)]
  rw [hd,he,message,drop_left' hh,putBlob,take_left' (leBytes_length w _)]

/-- A reader never asks for more than the rest of its message, and asks for nothing
exactly when it has the whole of it. -/
theorem want_of_append (hh : head.length = h) (he : got ++ rest = message head body) :
    want h w got ≤ rest.length ∧ (want h w got = 0 ↔ rest = []) := by
  have hlen := congrArg List.length he
  rw [length_append,message_length hh] at hlen
  rw [← length_eq_zero_iff]
  unfold want
  split
  · omega
  split
  · omega
  rw [length_field hh he (by omega),leNat_leBytes w _ body.property]
  omega

end Message

/-- Calls with nothing to write return at once. -/
def pendingCalls (cs : List Bytes) : List Bytes := cs.dropWhile (· = [])

section Pending
variable {cs : List Bytes}

lemma pendingCalls_flatten (cs : List Bytes) : (pendingCalls cs).flatten = cs.flatten := by
  induction cs with
  | nil => rfl
  | cons c cs ih =>
    by_cases hc : c = []
    · have h : pendingCalls (c :: cs) = pendingCalls cs := by simp [pendingCalls,hc]
      rw [h,ih,hc]
      rfl
    have h : pendingCalls (c :: cs) = c :: cs := by simp [pendingCalls,hc]
    rw [h]

/-- The call in progress has something to write. -/
def Busy (cs : List Bytes) : Prop := ∃ c rest, cs = c :: rest ∧ c ≠ []

lemma busy_pendingCalls (h : pendingCalls cs ≠ []) : Busy (pendingCalls cs) := by
  induction cs with
  | nil => exact absurd rfl h
  | cons c cs ih =>
    by_cases hc : c = []
    · have he : pendingCalls (c :: cs) = pendingCalls cs := by simp [pendingCalls,hc]
      rw [he] at h ⊢
      exact ih h
    · exact ⟨c,cs,by simp [pendingCalls,hc],hc⟩

lemma Busy.flatten_ne (h : Busy cs) : cs.flatten ≠ [] := by
  obtain ⟨c,rest,rfl,hc⟩ := h
  simp [hc]

end Pending

def writeChunk (cap : Nat) (calls : List Bytes) (pipe : Bytes) (k : Nat) :
    Option (List Bytes × Bytes) :=
  match calls with
  | [] => none
  | c :: cs =>
    if 0 < k ∧ k ≤ c.length ∧ pipe.length + k ≤ cap then
      some (pendingCalls (c.drop k :: cs),pipe ++ c.take k)
    else none

def readChunk (h w : Nat) (got pipe : Bytes) (k : Nat) : Option (Bytes × Bytes) :=
  if 0 < k ∧ k ≤ want h w got ∧ k ≤ pipe.length then some (got ++ pipe.take k,pipe.drop k)
  else none

section Chunks
variable {cap h w k : Nat} {calls calls' : List Bytes} {got got' pipe pipe' : Bytes}

lemma writeChunk_some (hw : writeChunk cap calls pipe k = some (calls',pipe')) :
    pipe' ++ calls'.flatten = pipe ++ calls.flatten ∧ pipe.length < pipe'.length ∧
      (calls' ≠ [] → Busy calls') := by
  unfold writeChunk at hw
  split at hw
  · cases hw
  rename_i c cs
  rw [ite_none_right_eq_some] at hw
  obtain ⟨⟨hk,hkc,_⟩,hw⟩ := hw
  cases hw
  refine ⟨?_,?_,busy_pendingCalls⟩
  · rw [pendingCalls_flatten,flatten_cons,flatten_cons,append_assoc,
      ← append_assoc (c.take k),take_append_drop]
  rw [length_append,length_take]
  omega

lemma readChunk_some (hr : readChunk h w got pipe k = some (got',pipe')) :
    got' ++ pipe' = got ++ pipe ∧ pipe'.length < pipe.length ∧ got' ≠ [] := by
  rw [readChunk,ite_none_right_eq_some] at hr
  obtain ⟨⟨hk,_,hkp⟩,hr⟩ := hr
  cases hr
  refine ⟨by rw [append_assoc,take_append_drop],?_,?_⟩
  · rw [length_drop]
    omega
  intro hnil
  have hl := congrArg List.length hnil
  rw [length_append,length_take,length_nil] at hl
  omega

end Chunks
end RedRock.Lib
