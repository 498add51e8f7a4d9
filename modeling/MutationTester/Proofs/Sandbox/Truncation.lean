import MutationTester.Sandbox.Child
import MutationTester.Proofs.Json.Truncation

/-!
# Reports that have not arrived in full

A child may die, or be cut off, after any byte of its report. Bytes that end inside a character are
no text, and a text that ends inside the report is no JSON, so a strict prefix of a report holds no
report (`ChildReport.decode?_extract`). The parent then says that the child did not report, and it
takes a verdict from a complete report of a child that exited, and from nothing else
(`interpret_truncated_report`).
-/

set_option autoImplicit false

namespace MutationTester

/-! ## Bytes of texts -/

/-- What follows the bytes of some characters in the bytes of a text is the bytes of a text. -/
theorem isValidUTF8_of_utf8Encode_append {cs : List Char} {rest : ByteArray}
    (h : (cs.utf8Encode ++ rest).IsValidUTF8) : rest.IsValidUTF8 := by
  induction cs with
  | nil => simpa using h
  | cons c cs ih =>
    rw [List.utf8Encode_cons, ByteArray.append_assoc,
      ByteArray.isValidUTF8_utf8Encode_singleton_append_iff] at h
    exact ih h

/-- If the first bytes of a text are those of a text, the text begins with it. -/
theorem exists_append_of_fromUTF8? {s t : String} {received missing : ByteArray}
    (hs : String.fromUTF8? received = some s) (ht : received ++ missing = t.toUTF8) :
    ∃ u : String, s ++ u = t ∧ missing = u.toUTF8 := by
  unfold String.fromUTF8? at hs
  split at hs
  next hvalid =>
    cases hs
    obtain ⟨cs, rfl⟩ := hvalid
    have hmissing : missing.IsValidUTF8 := by
      apply isValidUTF8_of_utf8Encode_append
      rw [ht]
      exact t.isValidUTF8
    refine ⟨String.fromUTF8 missing hmissing, ?_, rfl⟩
    rw [← String.toByteArray_inj, String.toByteArray_append]
    exact ht
  next => cases hs

/-! ## Reports -/

/-- A report is written as an object. -/
theorem ChildReport.exists_toJson_eq (r : ChildReport) : ∃ members, r.toJson = .object members := by
  cases r <;> exact ⟨_, rfl⟩

/-- The first bytes of a report hold no report, unless they are all of its bytes. -/
theorem ChildReport.decode?_extract (r : ChildReport) {n : Nat} (hn : n < r.encode.size) :
    decode? (r.encode.extract 0 n) = none := by
  obtain ⟨members, hmembers⟩ := r.exists_toJson_eq
  have hsplit : r.encode.extract 0 n ++ r.encode.extract n r.encode.size =
      (Json.Value.object members).toText.toUTF8 := by
    rw [ByteArray.extract_append_extract, Nat.min_eq_left (Nat.zero_le n),
      Nat.max_eq_right (Nat.le_of_lt hn), ByteArray.extract_zero_size, ← hmembers]
    rfl
  unfold decode?
  cases hs : String.fromUTF8? (r.encode.extract 0 n) with
  | none => rfl
  | some s =>
    obtain ⟨u, hu, hmissing⟩ := exists_append_of_fromUTF8? hs hsplit
    have hne : u ≠ "" := by
      rintro rfl
      have hsize := congrArg ByteArray.size hmissing
      rw [ByteArray.size_extract] at hsize
      change _ = 0 at hsize
      omega
    show Json.parse? s >>= ofJson? = none
    rw [Json.parse?_eq_none_of_append hu hne]
    rfl

/-! ## What the parent makes of them -/

/-- A verdict is the verdict of a report. -/
theorem status_ofVerdict_iff (v : Verdict) (passed : Bool) :
    (RunResult.ofVerdict v).status = (if passed then .passed else .failed) ↔ v.passed = passed := by
  unfold RunResult.ofVerdict
  cases v.passed <;> cases passed <;> simp

/-- The parent takes a verdict from a child that exited and has reported it, and from nothing
else. -/
theorem status_interpret_iff (exit : ChildExit) (received : ByteArray) (passed : Bool) :
    (interpret exit received).status = (if passed then .passed else .failed) ↔
      ∃ code v, exit = .exited code ∧
        ChildReport.decode? received = some (.finished v) ∧ v.passed = passed := by
  have hnone : ∀ status output, status ≠ .passed → status ≠ .failed →
      (RunResult.withoutVerdict status output).status ≠ if passed then .passed else .failed := by
    intro status output hpassed hfailed
    cases passed
    · exact hfailed
    · exact hpassed
  unfold interpret
  cases exit with
  | lost message => simp [hnone]
  | timedOut => simp [hnone]
  | signaled s =>
    simp only [reduceCtorEq, false_and, exists_false, iff_false]
    split <;> exact hnone _ _ (by decide) (by decide)
  | exited code =>
    dsimp only
    cases hreport : ChildReport.decode? received with
    | none => simp [hnone]
    | some report =>
      cases report with
      | trapped message => simp [hnone]
      | finished v => simp [status_ofVerdict_iff]

/-- A report that has not arrived in full is never taken for a verdict. Whatever strict prefix of
the bytes of whatever report has been received from a child that exited, the child is said not to
have reported. And whatever the end of a child and whatever the bytes received, a verdict is taken
only from a child that exited, and only the one in the report that the bytes hold. -/
theorem verdict_needs_complete_report :
    (∀ (r : ChildReport) (code n : Nat), n < r.encode.size →
      (interpret (.exited code) (r.encode.extract 0 n)).status = .crashed ∧
      (interpret (.exited code) (r.encode.extract 0 n)).output =
        "child exited without reporting a result" ∧
      (interpret (.exited code) (r.encode.extract 0 n)).coverage = none) ∧
    ∀ (exit : ChildExit) (received : ByteArray),
      ((interpret exit received).status = .passed ↔
        ∃ code v, exit = .exited code ∧
          ChildReport.decode? received = some (.finished v) ∧ v.passed = true) ∧
      ((interpret exit received).status = .failed ↔
        ∃ code v, exit = .exited code ∧
          ChildReport.decode? received = some (.finished v) ∧ v.passed = false) := by
  refine ⟨?_, ?_⟩
  · intro r code n hn
    have hresult : interpret (.exited code) (r.encode.extract 0 n) =
        .withoutVerdict .crashed "child exited without reporting a result" := by
      unfold interpret
      rw [r.decode?_extract hn]
    rw [hresult]
    exact ⟨rfl, rfl, rfl⟩
  · intro exit received
    exact ⟨status_interpret_iff exit received true, status_interpret_iff exit received false⟩

/-- The output of the report holds a closing brace and a character of two bytes, and the child was
cut off between these two bytes. -/
theorem report_cut_inside_character :
    (ChildReport.finished ⟨true, "\x7dé", none⟩).encode.extract 0 39 =
        "\x7b\"Finished\":\x7b\"passed\":true,\"output\":\"\x7d".toUTF8.push 0xC3 ∧
      39 < (ChildReport.finished ⟨true, "\x7dé", none⟩).encode.size ∧
      (interpret (.exited 0)
        ((ChildReport.finished ⟨true, "\x7dé", none⟩).encode.extract 0 39)).status = .crashed := by
  have hcut : 39 < (ChildReport.finished ⟨true, "\x7dé", none⟩).encode.size := by decide +kernel
  exact ⟨by decide +kernel, hcut, (verdict_needs_complete_report.1 _ 0 39 hcut).1⟩

end MutationTester
