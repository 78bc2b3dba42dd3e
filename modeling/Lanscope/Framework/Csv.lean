import Lanscope.Framework.Run
import Lanscope.Framework.Text

/-!
# Comma-separated values

A reader of comma-separated values, as a machine that takes one character at a time, and what it
makes of a table whose fields are written with quotes or as they are. A record ends with a line
feed, which a carriage return may precede. Outside quotes no other carriage return is accepted.
-/

namespace Lanscope.Framework.Csv

inductive Mode
  /-- Before the first character of a field. -/
  | start
  | plain
  | quoted
  /-- After a quote in a quoted field, which is the closing one unless another quote follows. -/
  | quote
  | carriageReturn
  deriving DecidableEq

structure Reader where
  records : List (List Str)
  /-- The fields of the current record that are complete. -/
  fields : List Str
  field : Str
  mode : Mode
  deriving DecidableEq

namespace Reader

def initial : Reader := ⟨[], [], [], .start⟩

def push (r : Reader) (c : Char) (mode : Mode) : Reader :=
  { r with field := r.field ++ [c], mode := mode }

def endField (r : Reader) : Reader := ⟨r.records, r.fields ++ [r.field], [], .start⟩

def endRecord (r : Reader) : Reader := ⟨r.records ++ [r.fields ++ [r.field]], [], [], .start⟩

/-- The characters that may follow a complete field. -/
def delimiter (r : Reader) (c : Char) : Option Reader :=
  if c = ',' then some r.endField
  else if c = '\n' then some r.endRecord
  else if c = '\r' then some { r with mode := .carriageReturn }
  else none

def step (r : Reader) (c : Char) : Option Reader :=
  match r.mode with
  | .start =>
    if c = '"' then some { r with mode := .quoted } else (r.delimiter c).or (r.push c .plain)
  | .plain => if c = '"' then none else (r.delimiter c).or (r.push c .plain)
  | .quoted => if c = '"' then some { r with mode := .quote } else some (r.push c .quoted)
  | .quote => if c = '"' then some (r.push c .quoted) else r.delimiter c
  | .carriageReturn => if c = '\n' then some r.endRecord else none

/-- The end of the text may end a record in place of a line feed. -/
def finish (r : Reader) : Option (List (List Str)) :=
  match r.mode with
  | .start => some (if r.fields = [] then r.records else r.endRecord.records)
  | .plain | .quote => some r.endRecord.records
  | .quoted | .carriageReturn => none

def readFrom (r : Reader) (text : Str) : Option (List (List Str)) :=
  (exec step r text).bind finish

end Reader

/-- The records of a text, if it is well formed. -/
def read (text : Str) : Option (List (List Str)) := Reader.initial.readFrom text

/-- Put quotes around a field and double those inside. -/
def quote (s : Str) : Str :=
  '"' :: (s.flatMap fun c => if c = '"' then ['"', '"'] else [c]) ++ ['"']

/-- The record on a line of its own, each field as `write` writes it. -/
def line (write : Str → Str) (record : List Str) : Str :=
  Str.join [','] (record.map write) ++ ['\n']

/-- Without the characters that structure a table. -/
def Plain (s : Str) : Prop := ∀ c ∈ s, c ∉ [',', '"', '\n', '\r']

-- over the characters of the text, not over all characters there are
instance (s : Str) : Decidable (Plain s) :=
  List.decidableBAll (fun c => c ∉ [',', '"', '\n', '\r']) s

/-- Without a comma or a quote, but not on one line. -/
def LineBroken (s : Str) : Prop := (',' ∉ s ∧ '"' ∉ s) ∧ ('\n' ∈ s ∨ '\r' ∈ s)

instance (s : Str) : Decidable (LineBroken s) := by
  delta LineBroken
  infer_instance

theorem Plain.not_lineBroken {s : Str} (h : Plain s) : ¬ LineBroken s := by
  rintro ⟨-, hline | hreturn⟩
  · exact h '\n' hline (by decide)
  · exact h '\r' hreturn (by decide)

theorem plain_join {sep : Str} (hsep : Plain sep) {parts : List Str}
    (hparts : ∀ p ∈ parts, Plain p) : Plain (Str.join sep parts) :=
  Str.forall_mem_join hsep hparts

/-! ## Whole fields -/

/-- The text reads as the field, whatever has been read before. -/
def Reads (text field : Str) : Prop :=
  ∀ records fields, ∃ mode, mode ≠ .quoted ∧ mode ≠ .carriageReturn ∧
    exec Reader.step ⟨records, fields, [], .start⟩ text = some ⟨records, fields, field, mode⟩

namespace Reader

theorem readFrom_append {r t : Reader} {text : Str} (h : exec step r text = some t) (rest : Str) :
    r.readFrom (text ++ rest) = t.readFrom rest := by
  rw [readFrom, exec_append, h]
  rfl

theorem readFrom_cons (r : Reader) (c : Char) (rest : Str) :
    r.readFrom (c :: rest) = (r.step c).bind fun t => t.readFrom rest :=
  Option.bind_assoc _ _ _

/-- A complete field is followed by a comma or the end of the line. -/
private theorem step_complete {r : Reader} (hquoted : r.mode ≠ .quoted)
    (hreturn : r.mode ≠ .carriageReturn) :
    r.step ',' = some r.endField ∧ r.step '\n' = some r.endRecord := by
  cases hmode : r.mode <;> simp_all [step, delimiter]

private theorem step_text (r : Reader) (hmode : r.mode = .start ∨ r.mode = .plain) {c : Char}
    (hc : c ∉ [',', '"', '\n', '\r']) : r.step c = some (r.push c .plain) := by
  simp only [List.mem_cons, List.not_mem_nil, or_false, not_or] at hc
  rcases hmode with hmode | hmode <;> simp [step, hmode, delimiter, hc]

/-- Records that have been read stay. -/
theorem records_readFrom {r : Reader} {text : Str} {out : List (List Str)}
    (h : r.readFrom text = some out) : r.records <+: out := by
  induction text generalizing r with
  | nil =>
      obtain ⟨records, fields, field, mode⟩ := r
      cases mode <;> simp [readFrom, finish, endRecord] at h
      · split_ifs at h <;> simp [← h]
      · simp [← h]
      · simp [← h]
  | cons c text ih =>
      rw [readFrom_cons, Option.bind_eq_some_iff] at h
      obtain ⟨t, hstep, ht⟩ := h
      refine List.IsPrefix.trans ?_ (ih ht)
      obtain ⟨records, fields, field, mode⟩ := r
      cases mode <;> simp only [step, delimiter] at hstep <;> split_ifs at hstep <;>
        simp at hstep <;> subst t <;> simp [endField, endRecord, push]

end Reader

open Reader

private theorem exec_plain {s : Str} (hs : Plain s) (r : Reader)
    (hmode : r.mode = .start ∨ r.mode = .plain) :
    ∃ mode, (mode = .start ∨ mode = .plain) ∧
      exec step r s = some ⟨r.records, r.fields, r.field ++ s, mode⟩ := by
  induction s generalizing r with
  | nil => exact ⟨r.mode, hmode, by simp⟩
  | cons c s ih =>
      obtain ⟨mode, hmode', hexec⟩ := ih (fun d hd => hs d (List.mem_cons_of_mem c hd))
        (r.push c .plain) (Or.inr rfl)
      refine ⟨mode, hmode', exec_cons_iff.mpr ⟨_, step_text r hmode (hs c List.mem_cons_self), ?_⟩⟩
      simpa [push] using hexec

/-- A field without special characters needs no quotes. -/
theorem reads_plain {s : Str} (hs : Plain s) : Reads s s := by
  intro records fields
  obtain ⟨mode, hmode, hexec⟩ := exec_plain hs ⟨records, fields, [], .start⟩ (Or.inl rfl)
  refine ⟨mode, ?_, ?_, hexec⟩
  · rcases hmode with rfl | rfl <;> decide
  · rcases hmode with rfl | rfl <;> decide

private theorem exec_quoted (s : Str) (records : List (List Str)) (fields : List Str)
    (field : Str) :
    exec step ⟨records, fields, field, .quoted⟩
        (s.flatMap fun c => if c = '"' then ['"', '"'] else [c]) =
      some ⟨records, fields, field ++ s, .quoted⟩ := by
  induction s generalizing field with
  | nil => simp
  | cons c s ih =>
      have hone : exec step ⟨records, fields, field, .quoted⟩
          (if c = '"' then ['"', '"'] else [c]) =
          some ⟨records, fields, field ++ [c], .quoted⟩ := by
        split_ifs with hc
        · subst c
          rfl
        · simp [exec, step, hc, push]
      rw [List.flatMap_cons, exec_append, hone]
      simpa using ih (field ++ [c])

/-- A field in quotes reads as it is, whatever is in it. -/
theorem reads_quote (s : Str) : Reads (quote s) s := by
  intro records fields
  refine ⟨.quote, by decide, by decide, ?_⟩
  have hopen : exec step ⟨records, fields, [], .start⟩ ['"'] =
      some ⟨records, fields, [], .quoted⟩ := rfl
  rw [quote, ← List.singleton_append, List.append_assoc, exec_append, hopen, Option.bind_some,
    exec_append, exec_quoted]
  rfl

/-! ## Tables -/

private theorem readFrom_carriageReturn {r : Reader} (hmode : r.mode = .carriageReturn)
    {text : Str} {out : List (List Str)} (h : r.readFrom text = some out) :
    r.records ++ [r.fields ++ [r.field]] <+: out := by
  cases text with
  | nil => simp [readFrom, finish, hmode] at h
  | cons c text =>
      rw [readFrom_cons, Option.bind_eq_some_iff] at h
      obtain ⟨t, hstep, ht⟩ := h
      simp only [step, hmode] at hstep
      split_ifs at hstep
      obtain rfl := Option.some.inj hstep
      exact records_readFrom ht

/-- A field without quotes ends at its first line break, before the end of what was written. -/
private theorem readFrom_lineBroken {s : Str} (hs : LineBroken s) (rest : Str) (r : Reader)
    (hmode : r.mode = .start ∨ r.mode = .plain) {out : List (List Str)}
    (h : r.readFrom (s ++ rest) = some out) :
    ∃ field, field ≠ r.field ++ s ∧ r.records ++ [r.fields ++ [field]] <+: out := by
  induction s generalizing r with
  | nil => exact absurd hs.2 (by simp)
  | cons c s ih =>
      obtain ⟨⟨hcomma, hquote⟩, hbreak⟩ := hs
      rw [List.mem_cons, not_or] at hcomma hquote
      rw [List.cons_append, readFrom_cons, Option.bind_eq_some_iff] at h
      obtain ⟨t, hstep, ht⟩ := h
      by_cases hline : c = '\n' ∨ c = '\r'
      · refine ⟨r.field, by simp, ?_⟩
        rcases hline with rfl | rfl
        · have hend : r.step '\n' = some r.endRecord :=
            (step_complete (by rcases hmode with h | h <;> simp [h])
              (by rcases hmode with h | h <;> simp [h])).2
          obtain rfl := Option.some.inj (hend.symm.trans hstep)
          exact records_readFrom ht
        · have hreturn : r.step '\r' = some { r with mode := .carriageReturn } := by
            rcases hmode with h | h <;> simp [step, h, delimiter]
          obtain rfl := Option.some.inj (hreturn.symm.trans hstep)
          have hkept := readFrom_carriageReturn rfl ht
          exact hkept
      · rw [not_or] at hline
        have hpush := step_text r hmode (c := c) (by
          simp only [List.mem_cons, List.not_mem_nil, or_false, not_or]
          exact ⟨Ne.symm hcomma.1, Ne.symm hquote.1, hline.1, hline.2⟩)
        obtain rfl := Option.some.inj (hpush.symm.trans hstep)
        have htail : LineBroken s := by
          refine ⟨⟨hcomma.2, hquote.2⟩, ?_⟩
          simpa [Ne.symm hline.1, Ne.symm hline.2] using hbreak
        obtain ⟨field, hfield, hout⟩ := ih htail (r.push c .plain) (Or.inr rfl) ht
        exact ⟨field, by simpa [push] using hfield, hout⟩

section Tables

variable {write : Str → Str}

private theorem line_cons_cons (write : Str → Str) (v u : Str) (record : List Str) :
    line write (v :: u :: record) = write v ++ ',' :: line write (u :: record) := by
  simp [line, Str.join, List.intercalate_cons_cons]

/-- A complete line yields its record. -/
private theorem readFrom_line (v : Str) (record : List Str)
    (hreads : ∀ u ∈ v :: record, Reads (write u) u) (records : List (List Str))
    (fields : List Str) (rest : Str) :
    readFrom ⟨records, fields, [], .start⟩ (line write (v :: record) ++ rest) =
      readFrom ⟨records ++ [fields ++ v :: record], [], [], .start⟩ rest := by
  induction record generalizing v fields with
  | nil =>
      obtain ⟨mode, hquoted, hreturn, hexec⟩ := hreads v List.mem_cons_self records fields
      have hend := (step_complete (r := ⟨records, fields, v, mode⟩) hquoted hreturn).2
      rw [line, List.map_singleton, Str.join, List.intercalate_singleton, List.append_assoc,
        readFrom_append hexec, List.singleton_append, readFrom_cons, hend]
      rfl
  | cons u record ih =>
      obtain ⟨mode, hquoted, hreturn, hexec⟩ := hreads v List.mem_cons_self records fields
      have hend := (step_complete (r := ⟨records, fields, v, mode⟩) hquoted hreturn).1
      have hrest := ih u (fun w hw => hreads w (List.mem_cons_of_mem v hw)) (fields ++ [v])
      rw [line_cons_cons, List.append_assoc, readFrom_append hexec, List.cons_append, readFrom_cons,
        hend, Option.bind_some]
      simpa [endField] using hrest

/-- A line with a broken field yields another record, if it yields one. -/
private theorem readFrom_brokenLine (hreads : ∀ v, ¬ LineBroken v → Reads (write v) v)
    (hbroken : ∀ v, LineBroken v → write v = v) {record : List Str}
    (hrecord : ∃ v ∈ record, LineBroken v) (records : List (List Str)) (fields : List Str)
    (rest : Str) {out : List (List Str)}
    (h : readFrom ⟨records, fields, [], .start⟩ (line write record ++ rest) = some out) :
    ∃ other, other ≠ fields ++ record ∧ records ++ [other] <+: out := by
  induction record generalizing fields with
  | nil => exact absurd hrecord (by simp)
  | cons v record ih =>
      by_cases hv : LineBroken v
      · obtain ⟨tail, htail⟩ : ∃ tail, line write (v :: record) = v ++ tail := by
          cases record with
          | nil => exact ⟨['\n'], by simp [line, Str.join, hbroken v hv]⟩
          | cons u record =>
              exact ⟨',' :: line write (u :: record), by rw [line_cons_cons, hbroken v hv]⟩
        rw [htail, List.append_assoc] at h
        obtain ⟨field, hfield, hout⟩ := readFrom_lineBroken hv _ _ (Or.inl rfl) h
        refine ⟨fields ++ [field], fun heq => ?_, hout⟩
        have hhead := List.append_cancel_left heq
        exact hfield (List.cons.inj hhead).1
      · have hbroken' : ∃ u ∈ record, LineBroken u := by
          obtain ⟨u, hu, hbu⟩ := hrecord
          rcases List.mem_cons.mp hu with rfl | hu
          · exact absurd hbu hv
          · exact ⟨u, hu, hbu⟩
        obtain ⟨u, record, rfl⟩ : ∃ u tail, record = u :: tail := by
          cases record with
          | nil => exact absurd hbroken' (by simp)
          | cons u tail => exact ⟨u, tail, rfl⟩
        obtain ⟨mode, hquoted, hreturn, hexec⟩ := hreads v hv records fields
        have hend := (step_complete (r := ⟨records, fields, v, mode⟩) hquoted hreturn).1
        rw [line_cons_cons, List.append_assoc, readFrom_append hexec, List.cons_append,
          readFrom_cons, hend, Option.bind_some] at h
        obtain ⟨other, hother, hout⟩ := ih hbroken' (fields ++ [v]) h
        exact ⟨other, by simpa using hother, hout⟩

/-- A table whose fields are read back as they were, but for those left with a line break, is read
back exactly when it has no field of the latter kind. -/
theorem read_table_iff (hreads : ∀ v, ¬ LineBroken v → Reads (write v) v)
    (hbroken : ∀ v, LineBroken v → write v = v) (table : List (List Str))
    (htable : ∀ record ∈ table, record ≠ []) :
    read (table.flatMap (line write)) = some table ↔
      ∀ record ∈ table, ∀ v ∈ record, ¬ LineBroken v := by
  suffices hfrom : ∀ records,
      readFrom ⟨records, [], [], .start⟩ (table.flatMap (line write)) = some (records ++ table) ↔
        ∀ record ∈ table, ∀ v ∈ record, ¬ LineBroken v from hfrom []
  induction table with
  | nil => simp [readFrom, finish]
  | cons record table ih =>
      intro records
      rw [List.flatMap_cons, List.forall_mem_cons]
      have hrest := ih fun r hr => htable r (List.mem_cons_of_mem record hr)
      by_cases hrecord : ∃ v ∈ record, LineBroken v
      · refine iff_of_false (fun h => ?_) (fun h => ?_)
        · obtain ⟨other, hother, hout⟩ :=
            readFrom_brokenLine hreads hbroken hrecord records [] _ h
          rw [List.prefix_append_right_inj, List.cons_prefix_cons] at hout
          exact hother hout.1
        · obtain ⟨v, hv, hbv⟩ := hrecord
          exact h.1 v hv hbv
      · have hwhole : ∀ v ∈ record, ¬ LineBroken v := fun v hv hbv => hrecord ⟨v, hv, hbv⟩
        obtain ⟨v, fields, rfl⟩ := List.exists_cons_of_ne_nil (htable record List.mem_cons_self)
        rw [readFrom_line v fields (fun u hu => hreads u (hwhole u hu)), List.nil_append,
          and_iff_right hwhole, ← hrest (records ++ [v :: fields]), List.append_assoc,
          List.singleton_append]

end Tables

end Lanscope.Framework.Csv
