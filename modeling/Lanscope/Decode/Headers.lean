import Lanscope.Decode.Ssdp
import Lanscope.Framework.Letters

/-!
# SSDP messages on the wire

A message is a start line and header lines, each ended by a carriage return and a line feed. The
decoder reads the wanted headers back in order, their values whole.
-/

namespace Lanscope.Ssdp

open Framework

structure Header where
  key : Str
  value : Str
  key_plain : ':' ∉ key ∧ '\n' ∉ key
  value_plain : '\n' ∉ value

namespace Header

def line (h : Header) : Str := h.key ++ ':' :: h.value

/-- The trimmed key is the given one, in any case. -/
def Is (h : Header) (key : Str) : Prop := h.key.trim.eqIgnoreAsciiCase key

instance (h : Header) (key : Str) : Decidable (h.Is key) :=
  inferInstanceAs (Decidable (h.key.trim.eqIgnoreAsciiCase key = true))

/-- What a header says about the device. -/
def signal (h : Header) : Option Signal :=
  if h.value.trim = [] then none
  else if h.Is "SERVER".toList then some (.service ("server=".toList ++ h.value.trim))
  else if h.Is "NT".toList ∨ h.Is "ST".toList then some (.service h.value.trim)
  else none

theorem lineFeed_notMem_line (h : Header) : '\n' ∉ h.line := by
  simp [line, h.key_plain.2, h.value_plain]

theorem lineSignal_line (h : Header) : lineSignal h.line = h.signal.toList := by
  have hserver : h.key.trim.toAsciiUppercase = "SERVER".toList ↔ h.Is "SERVER".toList :=
    Str.toAsciiUppercase_eq_iff (by decide) _
  have hnt : h.key.trim.toAsciiUppercase = "NT".toList ↔ h.Is "NT".toList :=
    Str.toAsciiUppercase_eq_iff (by decide) _
  have hst : h.key.trim.toAsciiUppercase = "ST".toList ↔ h.Is "ST".toList :=
    Str.toAsciiUppercase_eq_iff (by decide) _
  unfold lineSignal signal
  simp only [line, Str.splitOnce_append h.key_plain.1, hserver, hnt, hst]
  split_ifs <;> rfl

end Header

structure Message where
  startLine : Str
  startLine_plain : ':' ∉ startLine ∧ '\n' ∉ startLine
  headers : List Header

/-- The lines of a message, each ended by a carriage return and a line feed. -/
def Message.text (m : Message) : Str :=
  (m.startLine :: m.headers.map Header.line).flatMap fun line => line ++ "\r\n".toList

private theorem lines_flatMap {lines : List Str} (h : ∀ line ∈ lines, '\n' ∉ line) :
    Str.lines (lines.flatMap fun line => line ++ "\r\n".toList) = lines := by
  induction lines with
  | nil => rfl
  | cons line lines ih =>
      rw [List.forall_mem_cons] at h
      rw [List.flatMap_cons, List.append_assoc]
      exact (Str.lines_crlf h.1 _).trans (congrArg (line :: ·) (ih h.2))

/-- From a message on the wire, the decoder returns one signal for each wanted header whose value is
not blank, in the order of the headers, and nothing else. -/
theorem decode_message (m : Message) :
    decode (Utf8.encode m.text) = m.headers.filterMap Header.signal := by
  have hplain : ∀ line ∈ m.startLine :: m.headers.map Header.line, '\n' ∉ line := by
    rw [List.forall_mem_cons, List.forall_mem_map]
    exact ⟨m.startLine_plain.2, fun h _ => h.lineFeed_notMem_line⟩
  have hstart : lineSignal m.startLine = [] := by
    rw [lineSignal, Str.splitOnce_eq_none m.startLine_plain.1]
  rw [decode, Utf8.fromUtf8Lossy_encode, Message.text, lines_flatMap hplain, List.flatMap_cons,
    hstart, List.nil_append, List.flatMap_map]
  simp only [Header.lineSignal_line, List.filterMap_eq_flatMap_toList]

/-- A banner under a key in another case, a location, a type with colons, and a blank one. -/
def banner : Message where
  startLine := "HTTP/1.1 200 OK".toList
  startLine_plain := by decide
  headers := [⟨" Server".toList, " Linux ".toList, by decide, by decide⟩,
    ⟨"LOCATION".toList, "http://10.0.0.1:80/".toList, by decide, by decide⟩,
    ⟨"st".toList, "urn:device:1".toList, by decide, by decide⟩,
    ⟨"NT".toList, " ".toList, by decide, by decide⟩]

theorem decode_message_banner : decode (Utf8.encode banner.text) =
    [.service "server=Linux".toList, .service "urn:device:1".toList] :=
  (decode_message banner).trans (by decide)

end Lanscope.Ssdp
