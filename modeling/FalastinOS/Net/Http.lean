/-
  Net/Http.lean --- the HTTP response buffer of `net.c`.

  lwIP hands `http_recv` what it received as a chain of buffers.  The function looks
  at the first buffer of the chain only: it appends it to `http_response` if it fits
  and drops it otherwise.  Either way it acknowledges the whole chain, so the sender
  will not send those bytes again.

  A session keeps, besides the variables of the code, the bytes that were delivered
  and acknowledged since `http_get`.  `response_in_order` says for which callbacks the
  buffer stays a prefix of them: those that append only while nothing is missing.
-/
import FalastinOS.Foundation.CString
import FalastinOS.Foundation.Execution
import FalastinOS.Foundation.Memory
import Mathlib.Data.List.Infix

set_option autoImplicit false

namespace FalastinOS.Net

open FalastinOS.Foundation

/-- A chain of `struct pbuf`: the payload of the first one, its `len` bytes, and of those
behind it. -/
structure Chain where
  first : List UInt8
  rest : List (List UInt8)

namespace Chain

/-- The bytes of the chain. -/
def payload (p : Chain) : List UInt8 := p.first ++ p.rest.flatten

/-- `tot_len`, which lwIP keeps equal to the sum of the `len`s. -/
def totLen (p : Chain) : Nat := p.first.length + (p.rest.map List.length).sum

theorem totLen_eq (p : Chain) : p.totLen = p.payload.length := by
  rw [totLen, payload, List.length_append, List.length_flatten]

end Chain

/-- The variables of the HTTP functions. -/
structure Http where
  /-- `http_response` -/
  response : Mem
  /-- `http_response_len` -/
  responseLen : Nat
  /-- `http_response_ready` -/
  responseReady : Bool
  /-- is `http_pcb` set? -/
  pcb : Bool
  /-- `http_connecting` -/
  connecting : Bool

/-- What `http_recv` asks of lwIP. -/
inductive TcpCall where
  /-- `tcp_close(pcb)` -/
  | close
  /-- `tcp_recved(pcb, len)` -/
  | recved (len : Nat)
  /-- `pbuf_free(p)` -/
  | pbufFree
  deriving DecidableEq, Repr

/-- `sizeof(http_response)`. -/
def responseSize : Nat := 8192

/-- `memcpy(buf + i, data, len)` for data outside of the buffer. -/
def copyIn (buf : Mem) : Nat → List UInt8 → Mem
  | _, [] => buf
  | i, c :: rest => copyIn (buf.writeByte i c) (i + 1) rest

/-- The part of `http_recv` that keeps the data, if they fit. -/
def keep (s : Http) (data : List UInt8) : Http :=
  if s.responseLen + data.length < responseSize - 1 then
    { s with
      response := (copyIn s.response s.responseLen data).writeByte (s.responseLen + data.length) 0
      responseLen := s.responseLen + data.length
      responseReady := true }
  else s

/-- `http_recv(arg, pcb, p, err)`; `ok` says whether `err` is `ERR_OK`, and `p` is none for
NULL. -/
def httpRecv (s : Http) (pcb : Bool) (p : Option Chain) (ok : Bool) : Http × List TcpCall :=
  if !ok || !pcb then
    ({ s with pcb := false, connecting := false }, if pcb then [.close] else [])
  else
    match p with
    | none => ({ s with pcb := false, connecting := false }, [.close])
    | some chain => (keep s chain.first, [.recved chain.totLen, .pbufFree])

/-- The part of `http_get` before the name is looked up. -/
def httpGet (s : Http) : Http :=
  { s with responseLen := 0, responseReady := false, response := s.response.writeByte 0 0 }

/-- `http_response` read as a C string. -/
def Http.responseText (s : Http) : List UInt8 :=
  ((List.range responseSize).map s.response).takeWhile (· ≠ 0)

/-- `display_http_response()`: what it prints, and the variables after it. -/
def displayHttpResponse (s : Http) : List UInt8 × Http :=
  if !s.responseReady then (text "No HTTP response yet. Try again.\n", s)
  else
    (text "\n=== HTTP Response ===\n" ++ s.responseText ++ text "\n=== End of Response ===\n",
      { s with responseReady := false, responseLen := 0 })

/-! ## What is in the buffer -/

/-- `http_response[0..http_response_len)`. -/
def Http.stored (s : Http) : List UInt8 := (List.range s.responseLen).map s.response

theorem copyIn_apply (data : List UInt8) :
    ∀ (buf : Mem) (i k : Nat), copyIn buf i data k =
      if i ≤ k ∧ k < i + data.length then data.getD (k - i) 0 else buf k := by
  induction data with
  | nil =>
      intro buf i k
      rw [if_neg (by simp only [List.length_nil]; omega)]
      rfl
  | cons c rest ih =>
      intro buf i k
      rw [copyIn, ih, List.length_cons]
      by_cases hk : k = i
      · rw [if_neg (by omega), if_pos (by omega), hk, Nat.sub_self, List.getD_cons_zero,
          Mem.writeByte_self]
      · rw [Mem.writeByte_of_ne _ _ hk]
        by_cases hin : i + 1 ≤ k ∧ k < i + 1 + rest.length
        · rw [if_pos hin, if_pos (by omega), show k - i = k - (i + 1) + 1 by omega,
            List.getD_cons_succ]
        · rw [if_neg hin, if_neg (by omega)]

/-- Data that fit are appended. -/
theorem stored_keep {s : Http} {data : List UInt8}
    (h : s.responseLen + data.length < responseSize - 1) :
    (keep s data).stored = s.stored ++ data := by
  apply List.ext_getElem
  · simp [keep, if_pos h, Http.stored]
  · intro k hk hk'
    simp only [keep, if_pos h, Http.stored, List.length_map, List.length_range] at hk
    simp only [keep, if_pos h, Http.stored, List.getElem_map, List.getElem_range]
    rw [Mem.writeByte_of_ne _ _ (by omega), copyIn_apply]
    split
    · rename_i hin
      rw [List.getElem_append_right (by simp; omega), List.getD_eq_getElem _ _ (by omega)]
      congr 1
      simp
    · rename_i hout
      rw [List.getElem_append_left (by simp; omega)]
      simp

theorem keep_of_full {s : Http} {data : List UInt8}
    (h : ¬ s.responseLen + data.length < responseSize - 1) : keep s data = s := if_neg h

theorem length_stored (s : Http) : s.stored.length = s.responseLen := by
  rw [Http.stored, List.length_map, List.length_range]

/-! ## Callbacks after `http_get` -/

/-- The variables, and the bytes that were delivered and acknowledged since `http_get`. -/
structure Fetch where
  http : Http
  delivered : List UInt8

/-- `http_get` was called. -/
def Fetch.start (s : Http) : Fetch := ⟨httpGet s, []⟩

/-- A callback with `ERR_OK` and a chain. -/
def Fetch.recv (f : Fetch) (p : Chain) : Except Empty Fetch :=
  .ok ⟨(httpRecv f.http true (some p) true).1, f.delivered ++ p.payload⟩

/-- The buffer is a prefix of what was delivered, and has room for one byte more than its
terminator. -/
structure Fetch.Prefix (f : Fetch) : Prop where
  stored : f.http.stored <+: f.delivered
  room : f.http.responseLen < 8191

/-- The callback appends bytes only if all that was delivered before is in the buffer. -/
def Fetch.InOrder (f : Fetch) (p : Chain) : Prop :=
  p.first ≠ [] → f.http.responseLen + p.first.length < 8191 →
    f.http.responseLen = f.delivered.length

section Steps

variable {f f' : Fetch} {p : Chain}

theorem Fetch.recv_http (h : f.recv p = .ok f') : f'.http = keep f.http p.first := by
  obtain rfl := Except.ok.inj h
  rfl

theorem Fetch.recv_delivered (h : f.recv p = .ok f') :
    f'.delivered = f.delivered ++ p.payload := by
  obtain rfl := Except.ok.inj h
  rfl

/-- A callback acknowledges all bytes of the chain, those that it drops too. -/
theorem acknowledged_recv (s : Http) (p : Chain) :
    (httpRecv s true (some p) true).2 = [.recved p.payload.length, .pbufFree] := by
  rw [← p.totLen_eq]
  rfl

/-- No callback fills the buffer up. -/
theorem room_recv (hroom : f.http.responseLen < 8191) (h : f.recv p = .ok f') :
    f'.http.responseLen < 8191 := by
  rw [f.recv_http h]
  unfold keep
  split
  · rename_i hfits
    exact hfits
  · exact hroom

/-- A callback in order keeps the buffer a prefix. -/
theorem prefix_recv (hf : f.Prefix) (horder : f.InOrder p) (h : f.recv p = .ok f') :
    f'.Prefix := by
  refine ⟨?_, room_recv hf.room h⟩
  rw [f.recv_http h, f.recv_delivered h]
  by_cases hfits : f.http.responseLen + p.first.length < responseSize - 1
  · rw [stored_keep hfits, Chain.payload]
    by_cases hnone : p.first = []
    · rw [hnone, List.append_nil]
      exact hf.stored.trans (List.prefix_append _ _)
    · -- All that was delivered is in the buffer, and the first buffer of the chain is next.
      have hall : f.http.stored = f.delivered := by
        apply hf.stored.eq_of_length
        rw [length_stored]
        exact horder hnone hfits
      rw [hall, ← List.append_assoc]
      exact List.prefix_append _ _
  · rw [keep_of_full hfits]
    exact hf.stored.trans (List.prefix_append _ _)

end Steps

theorem prefix_start (s : Http) : (Fetch.start s).Prefix :=
  ⟨List.nil_prefix, (by decide : 0 < 8191)⟩

/-- The length stays below 8191, whatever is delivered. -/
theorem response_room (s : Http) (chains : List Chain) :
    Along Fetch.recv (fun f => f.http.responseLen < 8191) (Fetch.start s) chains :=
  along_of_invariant (fun _ _ _ => room_recv) (prefix_start s).room chains

/-- After `http_get` the buffer is a prefix of what was delivered and acknowledged at every
point of a sequence of callbacks, each of which appends only while nothing is missing. -/
theorem response_in_order (s : Http) (chains : List Chain)
    (h : Guarded Fetch.recv Fetch.InOrder (Fetch.start s) chains) :
    Along Fetch.recv Fetch.Prefix (Fetch.start s) chains :=
  along_of_guarded (fun _ _ _ => prefix_recv) (prefix_start s) h

/-- Two chains of one buffer each. -/
def twoSegments : List Chain := [⟨text "HTTP/1.1 ", []⟩, ⟨text "200 OK", []⟩]

theorem response_in_order_twoSegments :
    Along Fetch.recv Fetch.Prefix (Fetch.start ⟨fun _ => 0, 0, false, true, false⟩)
      twoSegments := by
  refine response_in_order _ _ ?_
  intro f hf
  obtain rfl := Except.ok.inj hf
  refine ⟨fun _ _ => rfl, fun f hf => ?_⟩
  obtain rfl := Except.ok.inj hf
  exact ⟨fun _ _ => rfl, trivial⟩

/-- A chain of two buffers, and then another one: the byte 98 is missing in the middle. -/
def chainedSegments : List Chain := [⟨[97], [[98]]⟩, ⟨[99], []⟩]

theorem response_has_hole :
    ¬ Along Fetch.recv Fetch.Prefix (Fetch.start ⟨fun _ => 0, 0, false, true, false⟩)
      chainedSegments := by
  intro h
  have hlast := ((h.2 _ rfl).2 _ rfl).stored
  exact absurd hlast (by decide)

/-! ## The text that is shown -/

/-- The buffer is terminated where its length says. -/
def Http.Terminated (s : Http) : Prop := s.responseLen < 8191 ∧ s.response s.responseLen = 0

theorem terminated_recv {f f' : Fetch} {p : Chain} (hf : f.http.Terminated)
    (h : f.recv p = .ok f') : f'.http.Terminated := by
  refine ⟨room_recv hf.1 h, ?_⟩
  rw [f.recv_http h]
  unfold keep
  split
  · exact Mem.writeByte_self _ _ _
  · exact hf.2

/-- What is shown of a terminated buffer is in it. -/
theorem responseText_stored {s : Http} (h : s.Terminated) : s.responseText <+: s.stored := by
  obtain ⟨hroom, hnul⟩ := h
  obtain ⟨behind, hbehind⟩ : ∃ behind, (List.range responseSize).map s.response =
      s.stored ++ 0 :: behind := by
    obtain ⟨n, hn⟩ : ∃ n, responseSize = s.responseLen + (n + 1) :=
      ⟨responseSize - s.responseLen - 1, by have hsize : responseSize = 8192 := rfl; omega⟩
    rw [hn, List.range_add, List.map_append, List.range_succ_eq_map, Http.stored]
    simp only [List.map_cons, Nat.add_zero, hnul]
    exact ⟨_, rfl⟩
  rw [Http.responseText, hbehind, List.takeWhile_append]
  split
  · rw [List.takeWhile_cons_of_neg (by simp), List.append_nil]
  · exact List.takeWhile_prefix _

/-- What `display_http_response` shows between its two lines is a prefix of what was
delivered. -/
theorem shown_in_order (s : Http) (chains : List Chain)
    (h : Guarded Fetch.recv Fetch.InOrder (Fetch.start s) chains) :
    Along Fetch.recv (fun f => f.http.responseReady = true → ∃ shown, shown <+: f.delivered ∧
      (displayHttpResponse f.http).1 = text "\n=== HTTP Response ===\n" ++ shown ++
        text "\n=== End of Response ===\n") (Fetch.start s) chains := by
  have hboth : Along Fetch.recv (fun f => f.Prefix ∧ f.http.Terminated) (Fetch.start s) chains :=
    along_of_guarded (fun _ _ _ hf horder hstep =>
      ⟨prefix_recv hf.1 horder hstep, terminated_recv hf.2 hstep⟩)
      ⟨prefix_start s, (prefix_start s).room, Mem.writeByte_self s.response 0 0⟩ h
  refine hboth.mono fun f hf hready => ?_
  refine ⟨f.http.responseText, (responseText_stored hf.2).trans hf.1.stored, ?_⟩
  rw [displayHttpResponse, if_neg (by simp [hready])]

end FalastinOS.Net
