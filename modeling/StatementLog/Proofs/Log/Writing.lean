import StatementLog.Proofs.Command.RoundTrip
import StatementLog.Proofs.Log.Contract

namespace StatementLog

class WritableLog (μ : Type) {κ : outParam Type} [CommandLog μ κ] [LawfulLog μ] : Prop where
  append_ok {m m' : μ} {k : κ} {r : Record} {n : Nat} :
    CommandLog.append m k r = (.ok n, m') →
      n = LawfulLog.size m ∧ LawfulLog.size m' = n + 1 ∧
        (∀ i < n, command? m' i = command? m i) ∧ ∀ c, command? m' n = some c → c = r.command n
  append_error {m m' : μ} {k : κ} {r : Record} {e : Error} :
    CommandLog.append m k r = (.error e, m') →
      LawfulLog.size m' = LawfulLog.size m ∧ command? m' = command? m
  size_announce (m : μ) (k : κ) : LawfulLog.size (CommandLog.announce m k) = LawfulLog.size m
  command?_announce (m : μ) (k : κ) : command? (CommandLog.announce m k) = command? m
  position_close (k : κ) : CommandLog.position μ (CommandLog.close μ k) = CommandLog.position μ k

namespace Tape

theorem append_ok {t t' : Tape} {k : TapeClient} {r : Record} {n : Nat}
    (h : t.append k r = (.ok n, t')) :
    n = t.lines.length ∧ t' = { t with lines := t.lines ++ [r.line] } := by
  unfold append at h
  split at h
  · cases h
  · cases h
    exact ⟨rfl, rfl⟩

theorem append_error {t t' : Tape} {k : TapeClient} {r : Record} {e : Error}
    (h : t.append k r = (.error e, t')) : t' = t := by
  unfold append at h
  split at h <;> cases h
  rfl

instance : WritableLog Tape where
  append_ok {t t' k r n} h := by
    obtain ⟨rfl, rfl⟩ := append_ok h
    refine ⟨rfl, by simp [LawfulLog.size], ?_, ?_⟩
    · intro i hi
      show (t.lines ++ [r.line])[i]?.bind _ = t.lines[i]?.bind _
      rw [List.getElem?_append_left hi]
    · intro c hc
      obtain ⟨l, hl, hd⟩ := command?_decode hc
      have hlast : (t.lines ++ [r.line])[t.lines.length]? = some r.line := by simp
      cases hlast.symm.trans hl
      exact Record.decode_line hd
  append_error h := by
    rw [append_error h]
    exact ⟨rfl, rfl⟩
  size_announce _ _ := rfl
  command?_announce _ _ := rfl
  position_close _ := rfl

end Tape

end StatementLog
