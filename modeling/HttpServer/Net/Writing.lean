import HttpServer.Net.ByteStream

/-!
# The write operation of a connection

On an open connection the result of `write_all` is the truth: the kernel has
taken the whole data in order, or a proper part from its front. The guard in
front of the loop also takes a closed connection for one without anything to
write, and reports success there (`reported_iff`).
-/

namespace HttpServer

open HttpServer.Connection (WriteResult Written writeLoop)

namespace Reading

/-- `write_all`, with the guard for a closed connection. -/
def Connection.writeAll (c : Connection) (data : Bytes) (sends : List SendOutcome) : Written :=
  if !c.isOpen || data.length == 0 then ⟨.success, [], sends⟩ else HttpServer.Connection.writeAll data sends

/-- The result tells what the kernel has taken: all of the data, or else a proper part from its front. -/
structure Reported (data : Bytes) (w : Written) : Prop where
  success : w.result = .success ↔ w.pieces.flatten = data
  failure : w.result ≠ .success → w.pieces.flatten <+: data ∧ w.pieces.flatten ≠ data

/-- From `total` on the loop sends the data in order, and stops before the end only without success. -/
theorem writeLoop_sends (data : Bytes) (sends : List SendOutcome) {total : Nat} (le : total ≤ data.length) :
    let w := writeLoop data total (data.length - total) sends
    ∃ rest, w.pieces.flatten ++ rest = data.drop total ∧ (w.result = .success ↔ rest = []) := by
  induction sends generalizing total with
  | nil =>
    unfold writeLoop
    split
    · exact ⟨[], by simp, by simp⟩
    · exact ⟨[], by simp; omega, by simp⟩
  | cons o sends ih =>
    unfold writeLoop
    split
    · rename_i more
      -- where the loop gives up something is left
      have left : data.drop total ≠ [] := by
        rw [ne_eq, List.drop_eq_nil_iff]
        omega
      cases o with
      | sent n =>
        have sum : data.length - total - min n (data.length - total) =
            data.length - (total + min n (data.length - total)) := by omega
        obtain ⟨rest, eq, success⟩ := @ih (total + min n (data.length - total)) (by omega)
        dsimp only
        rw [sum]
        refine ⟨rest, ?_, success⟩
        rw [List.flatten_cons, List.append_assoc, eq, ← List.drop_drop, List.take_append_drop]
      | interrupted => exact ih le
      | wouldBlock => exact ⟨data.drop total, by simp, by simp [left]⟩
      | failed => exact ⟨data.drop total, by simp, by simp [left]⟩
      | broken => exact ⟨data.drop total, by simp, by simp [left]⟩
    · exact ⟨[], by simp; omega, by simp⟩

theorem reported_of_rest {data rest : Bytes} {w : Written} (eq : w.pieces.flatten ++ rest = data)
    (success : w.result = .success ↔ rest = []) : Reported data w := by
  have all : w.pieces.flatten = data ↔ rest = [] := by
    rw [← eq]
    simp
  refine ⟨success.trans all.symm, fun fails => ⟨⟨rest, eq⟩, fun same => ?_⟩⟩
  exact fails (success.2 (all.1 same))

/-- **Success is reported for delivered data only**, exactly where the connection is open or there is
nothing to write. -/
theorem reported_iff (c : Connection) (data : Bytes) (sends : List SendOutcome) :
    Reported data (c.writeAll data sends) ↔ c.isOpen = true ∨ data = [] := by
  unfold Connection.writeAll
  split
  · rename_i skipped
    constructor
    · intro reported
      exact .inr (reported.success.1 rfl).symm
    · intro fine
      have nothing : data = [] := by
        rcases fine with open_ | nothing
        · simpa [open_] using skipped
        · exact nothing
      exact @reported_of_rest data [] _ nothing.symm (by simp)
  · rename_i written
    have open_ : c.isOpen = true := by
      cases closed : c.isOpen with
      | true => rfl
      | false => simp [closed] at written
    obtain ⟨rest, eq, success⟩ := writeLoop_sends data sends (Nat.zero_le data.length)
    exact iff_of_true (reported_of_rest eq success) (.inl open_)

/-- On a closed connection nothing is sent, and success is reported. -/
theorem closed_reports :
    ((opened false [] []).writeAll (ascii "a") []).result = .success ∧
      ((opened false [] []).writeAll (ascii "a") []).pieces = [] ∧
      ¬ Reported (ascii "a") ((opened false [] []).writeAll (ascii "a") []) := by
  refine ⟨rfl, rfl, fun reported => ?_⟩
  exact absurd (reported.success.1 rfl) (by decide)

end Reading

end HttpServer
