import Lanscope.Decode.Contents
import Lanscope.Ebpf.Delivery

/-!
# Truncated payloads

What the decoders read off the first bytes of a payload, compared with what they read off all of it.
The formats with length prefixes drop what is cut. The lines of SSDP have no length, and the last of
them is taken as it stands.
-/

namespace Lanscope

open Framework

/-! ## DHCP -/

namespace Dhcp

/-- An option that is cut, by its own area or before its end, says nothing. -/
theorem walk_take_cut {code len : UInt8} (hpad : code ≠ optPad) (hend : code ≠ optEnd)
    {body : List UInt8} {n : Nat} (h : body.length < len.toNat ∨ n < len.toNat + 2) :
    walk ((code :: len :: body).take n) = [] := by
  cases n with
  | zero => exact walk_nil
  | succ n =>
      cases n with
      | zero => exact walk_code hpad hend
      | succ n =>
          have hshort : (body.take n).length < len.toNat := by
            rw [List.length_take]
            omega
          exact walk_cut hpad hend hshort

theorem take_option {code len : UInt8} {body : List UInt8} (m : Nat) :
    (code :: len :: body).take (len.toNat + 2 + m) =
      code :: len :: (body.take len.toNat ++ (body.drop len.toNat).take m) := by
  rw [Nat.add_right_comm, List.take_succ_cons, List.take_succ_cons, List.take_add]

theorem walk_take_prefix (area : List UInt8) (n : Nat) : walk (area.take n) <+: walk area := by
  fun_induction walk area generalizing n with
  | case1 => simp
  | case2 rest ih =>
      cases n with
      | zero => simp
      | succ n =>
          rw [List.take_succ_cons, walk_pad]
          exact ih n
  | case3 rest hne =>
      cases n with
      | zero => simp
      | succ n =>
          rw [List.take_succ_cons]
          exact (walk_end _).symm ▸ List.nil_prefix
  | case4 code hpad hend =>
      cases n with
      | zero => simp
      | succ n =>
          rw [List.take_succ_cons, List.take_nil, walk_code hpad hend]
  | case5 code hpad hend len body hcut =>
      rw [walk_take_cut hpad hend (Or.inl hcut)]
  | case6 code hpad hend len body hcut ih =>
      by_cases hn : n < len.toNat + 2
      · rw [walk_take_cut hpad hend (Or.inr hn)]
        exact List.nil_prefix
      · obtain ⟨m, rfl⟩ := Nat.exists_eq_add_of_le (not_lt.mp hn)
        have hdata : (body.take len.toNat).length = len.toNat := by
          rw [List.length_take]
          omega
        rw [take_option, walk_option hpad hend hdata, List.prefix_append_right_inj]
        exact ih m

theorem cookie_take (payload : List UInt8) (n p : Nat) :
    ((payload.take n).drop p).take 4 = magicCookie ↔
      p + 4 ≤ n ∧ (payload.drop p).take 4 = magicCookie := by
  rw [List.drop_take, List.take_take]
  constructor
  · intro h
    have hlen := congrArg List.length h
    rw [List.length_take] at hlen
    simp only [magicCookie, List.length_cons, List.length_nil] at hlen
    rw [Nat.min_eq_left (by omega)] at h
    exact ⟨by omega, h⟩
  · rintro ⟨hn, h⟩
    rw [Nat.min_eq_left (by omega)]
    exact h

theorem FirstCookie.of_take {payload : List UInt8} {n p : Nat}
    (h : FirstCookie (payload.take n) p) : p + 4 ≤ n ∧ FirstCookie payload p := by
  obtain ⟨hcookie, hfirst⟩ := h
  obtain ⟨hn, hcookie'⟩ := (cookie_take payload n p).mp hcookie
  refine ⟨hn, hcookie', fun q hq hearlier => ?_⟩
  exact hfirst q hq ((cookie_take payload n q).mpr ⟨by omega, hearlier⟩)

theorem decode_take_prefix (payload : List UInt8) (n : Nat) :
    decode (payload.take n) <+: decode payload := by
  cases hfind : findOptions (payload.take n) with
  | none =>
      rw [decode, hfind]
      exact List.nil_prefix
  | some start =>
      obtain ⟨p, rfl, hfirst⟩ := (findOptions_eq_some_iff _ _).mp hfind
      rw [decode_of_firstCookie hfirst, decode_of_firstCookie hfirst.of_take.2, List.drop_take]
      exact walk_take_prefix _ _

end Dhcp

/-! ## mDNS -/

namespace Dns

private theorem getElem?_of_take {buf : List UInt8} {n pos : Nat} {b : UInt8}
    (h : (buf.take n)[pos]? = some b) : buf[pos]? = some b := by
  rw [List.getElem?_take] at h
  exact (Option.ite_none_right_eq_some.mp h).2

/-- A name that the cut bytes hold is the name that the whole buffer holds there. -/
theorem readLabels_of_take {buf : List UInt8} {n pos : Nat} {labels : List Str} {found : Str × Nat}
    (h : readLabels (buf.take n) pos labels = some found) :
    readLabels buf pos labels = some found := by
  fun_induction readLabels (buf.take n) pos labels with
  | case1 => exact absurd h.symm (Option.some_ne_none _)
  | case2 pos labels hget =>
      rw [readLabels_step (getElem?_of_take hget), if_pos rfl]
      exact h
  | case3 => exact absurd h.symm (Option.some_ne_none _)
  | case4 pos labels len hget hne hptr hlabels =>
      rw [readLabels_step (getElem?_of_take hget), if_neg hne, if_pos hptr, if_neg hlabels]
      exact h
  | case5 => exact absurd h.symm (Option.some_ne_none _)
  | case6 pos labels len hget hne hptr stop hfit label hlabel ih =>
      have hcut : stop ≤ n ∧ stop ≤ buf.length := by
        rw [List.length_take] at hfit
        omega
      have hsame : label = (buf.drop (pos + 1)).take len.toNat := by
        simp only [label, List.drop_take, List.take_take]
        rw [Nat.min_eq_left (by omega)]
      rw [readLabels_step (getElem?_of_take hget), if_neg hne, if_neg hptr,
        if_neg (not_lt.mpr hcut.2), ← hsame, if_pos hlabel]
      exact ih h
  | case7 => exact absurd h.symm (Option.some_ne_none _)

end Dns

theorem Mdns.decode_take_subset (payload : List UInt8) (n : Nat) :
    Mdns.decode (payload.take n) ⊆ Mdns.decode payload := by
  intro sig hsig
  obtain ⟨name, hname, hsig⟩ := List.mem_flatMap.mp hsig
  obtain ⟨pos, hpos, next, hread, hint⟩ := Dns.mem_extractNames.mp hname
  refine List.mem_flatMap.mpr ⟨name, Dns.mem_extractNames.mpr ⟨pos, ?_, next, ?_, hint⟩, hsig⟩
  · exact hpos.trans_le (List.length_take_le' _ _)
  · exact Dns.readLabels_of_take hread

/-- What is read off the first bytes of a DHCP or mDNS payload is read off the whole of it. -/
theorem truncation_fabricates_nothing (payload : List UInt8) (n : Nat) :
    Dhcp.decode (payload.take n) <+: Dhcp.decode payload ∧
      ∀ sig ∈ Mdns.decode (payload.take n), sig ∈ Mdns.decode payload :=
  ⟨Dhcp.decode_take_prefix payload n, fun _ h => Mdns.decode_take_subset payload n h⟩

/-! ## SSDP -/

namespace Ssdp

/-- The lines that end before the cut are the first lines of the whole. -/
theorem finishedLines_take (payload : List UInt8) (n : Nat) :
    (Utf8.fromUtf8Lossy (payload.take n)).finishedLines <+:
      (Utf8.fromUtf8Lossy payload).finishedLines := by
  obtain ⟨k, tail, htext, htail⟩ := Utf8.fromUtf8Lossy_take payload n
  have hnone : '\n' ∉ tail := by
    rcases htail with rfl | rfl
    · exact List.not_mem_nil
    · decide
  rw [htext, Str.finishedLines_append_of_notMem _ hnone]
  have hprefix := Str.finishedLines_append_prefix ((Utf8.fromUtf8Lossy payload).take k)
    ((Utf8.fromUtf8Lossy payload).drop k)
  rwa [List.take_append_drop] at hprefix

/-- What the line that the cut leaves unfinished reports is reported by a line of the whole. -/
def CutHarmless (payload : List UInt8) (n : Nat) : Prop :=
  ∀ service, Reports (Utf8.fromUtf8Lossy (payload.take n)).unfinishedLine service →
    ∃ line ∈ (Utf8.fromUtf8Lossy payload).lines, Reports line service

/-- A cut invents nothing exactly when the line it falls in reports nothing new. -/
theorem decode_take_subset_iff (payload : List UInt8) (n : Nat) :
    (∀ sig ∈ decode (payload.take n), sig ∈ decode payload) ↔ CutHarmless payload n := by
  simp only [mem_decode_iff, forall_exists_index, and_imp]
  constructor
  · intro h service hreports
    have hne : (Utf8.fromUtf8Lossy (payload.take n)).unfinishedLine ≠ [] := by
      intro hnil
      obtain ⟨key, value, hsplit, _⟩ := hreports
      rw [hnil] at hsplit
      exact absurd hsplit.symm (Option.some_ne_none _)
    obtain ⟨_, hsame, line, hline, hreported⟩ := h _ service rfl _
      (Str.mem_lines.mpr (Or.inr ⟨hne, rfl⟩)) hreports
    obtain rfl := Signal.service.inj hsame
    exact ⟨line, hline, hreported⟩
  · rintro h _ service rfl line hline hreports
    refine ⟨service, rfl, ?_⟩
    cases Str.mem_lines.mp hline with
    | inl hfinished =>
        exact ⟨line, Str.mem_lines.mpr (Or.inl ((finishedLines_take payload n).subset hfinished)), hreports⟩
    | inr hunfinished =>
        rw [hunfinished.2] at hreports
        exact h service hreports

/-- An announcement whose device type lies across the last byte that the kernel copies. -/
def longNotify : List UInt8 :=
  ("NOTIFY * HTTP/1.1\r\nUSN: uuid:".toList ++ List.replicate 217 '0' ++
    "\r\nNT: upnp:rootdevice\r\n\r\n".toList).map fun c => UInt8.ofNat c.toNat

private theorem decode_ascii {bytes : List UInt8} (h : ∀ b ∈ bytes, b < 0x80) :
    decode bytes = (Str.lines (bytes.map fun b => Char.ofNat b.toNat)).flatMap lineSignal := by
  rw [decode, Utf8.fromUtf8Lossy_ascii h]

/-- The device is given a service `upnp` that its message does not name. -/
theorem longNotify_fabricates : ¬ ∀ (payload : List UInt8) (n : Nat),
    ∀ sig ∈ decode (payload.take n), sig ∈ decode payload := by
  intro h
  have hall : longNotify.all (· < 0x80) := by decide +kernel
  have hascii : ∀ b ∈ longNotify, b < 0x80 :=
    fun b hb => of_decide_eq_true (List.all_eq_true.mp hall b hb)
  have hcut : decode (longNotify.take copyLen) = [.service "upnp".toList] := by
    rw [decode_ascii fun b hb => hascii b (List.mem_of_mem_take hb)]
    decide +kernel
  have hwhole : decode longNotify = [.service "upnp:rootdevice".toList] := by
    rw [decode_ascii hascii]
    decide +kernel
  have hmem := h longNotify copyLen (.service "upnp".toList)
    (by rw [hcut]; exact List.mem_singleton_self _)
  rw [hwhole] at hmem
  exact absurd hmem (by decide)

end Ssdp

end Lanscope
