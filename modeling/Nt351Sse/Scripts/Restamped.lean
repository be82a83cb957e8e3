import Nt351Sse.Base.Runs
import Nt351Sse.Scripts.Stamped

/-! Builds stamp what they link, again and again and with numbers of their own. However
often a file was stamped, only the last stamp that it was given is there to be seen. -/

namespace Nt351.Stamp
open Python Script

variable {data : Bytes} {path : Str} {w : World}

instance (data : Bytes) : Decidable (Accepted data) :=
  decidable_of_iff (data.take 2 = [0x4d, 0x5a] ∧ 0x40 ≤ data.length ∧
    (data.drop (littleEndian data 0x3c 4)).take 4 = [0x50, 0x45, 0, 0] ∧
    littleEndian data (optionalHeader data) 2 = 0x10b ∧
    optionalHeader data + 68 ≤ data.length)
    ⟨fun ⟨hmz, hheader, hpe, hmagic, hwhole⟩ => ⟨hmz, hheader, hpe, hmagic, hwhole⟩,
      fun ⟨hmz, hheader, hpe, hmagic, hwhole⟩ => ⟨hmz, hheader, hpe, hmagic, hwhole⟩⟩

/-- One run of the script. -/
structure Call where
  path : Str
  major : ℤ
  minor : ℤ

namespace Call

variable {c d : Call}

def step (w : World) (c : Call) : World := ((stamp c.path c.major c.minor).exec w).2

/-- A call for `path` that does not fail on its numbers. -/
def Writes (path : Str) (c : Call) : Prop := c.path = path ∧ Fits c.major ∧ Fits c.minor

instance (path : Str) (c : Call) : Decidable (c.Writes path) :=
  inferInstanceAs (Decidable (_ ∧ _))

def restamp (c : Call) (data : Bytes) : Bytes :=
  if Accepted data then stamped data c.major.toNat c.minor.toNat else data

theorem restamp_restamp (c d : Call) (data : Bytes) :
    d.restamp (c.restamp data) = d.restamp data := by
  by_cases h : Accepted data
  · have hagain : Accepted (stamped data c.major.toNat c.minor.toNat) := h.withChecksum _ _ _
    rw [restamp, restamp, restamp, if_pos h, if_pos h, if_pos hagain, stamped_twice h.whole]
  · rw [restamp, restamp, restamp, if_neg h, if_neg h]

/-- A call that writes was given an accepted file; every other leaves the files alone. -/
theorem step_keeps (h : ¬∃ data, w.files c.path = some data ∧ Accepted data ∧
    Fits c.major ∧ Fits c.minor) : (c.step w).files = w.files := by
  have hcontract := stamp_contract c.path c.major c.minor w
  rw [Contract] at hcontract
  split at hcontract
  · exact absurd hcontract h
  · next hrun =>
    rw [step, hrun]
    exact hcontract

theorem step_files (c : Call) (path : Str) (w : World) : (c.step w).files path =
    if c.Writes path then (w.files path).map c.restamp else w.files path := by
  by_cases hstamps : ∃ data, w.files c.path = some data ∧ Accepted data ∧ Fits c.major ∧
      Fits c.minor
  · obtain ⟨data, hdata, h, hfits⟩ := hstamps
    rw [step, (exec_stamp hdata h hfits.1 hfits.2).2]
    by_cases hpath : c.path = path
    · subst hpath
      have hrestamp : c.restamp data = stamped data c.major.toNat c.minor.toNat := if_pos h
      rw [Function.update_self, if_pos ⟨rfl, hfits⟩, hdata, Option.map_some, hrestamp]
    · rw [Function.update_of_ne (Ne.symm hpath), if_neg fun hw => hpath hw.1]
  · rw [step_keeps hstamps]
    split
    · next hwrites =>
      obtain ⟨rfl, hfits⟩ := hwrites
      cases hdata : w.files c.path with
      | none => rfl
      | some data =>
        have hrefused : ¬Accepted data := fun h => hstamps ⟨data, hdata, h, hfits⟩
        rw [Option.map_some, restamp, if_neg hrefused]
    · rfl

theorem step_step (c : Call) (hd : d.Writes path) :
    (d.step (c.step w)).files path = (d.step w).files path := by
  rw [step_files, step_files, step_files, if_pos hd, if_pos hd]
  split
  · rw [Option.map_map]
    exact Option.map_congr fun data _ => restamp_restamp c d data
  · rfl

/-- What one call leaves of a file is the file, or the file edited with its numbers. -/
theorem step_edited (c : Call) (hdata : w.files path = some data) :
    ∃ data', (c.step w).files path = some data' ∧
      (data' = data ∨ c.path = path ∧ Edited data data' c.major c.minor) := by
  rw [step_files, hdata]
  split
  · next hwrites =>
    refine ⟨c.restamp data, rfl, ?_⟩
    rw [restamp]
    split
    · next h => exact .inr ⟨hwrites.1, stamped_edited h hwrites.2.1 hwrites.2.2⟩
    · exact .inl rfl
  · exact ⟨data, rfl, .inl rfl⟩

end Call

/-- After any calls, each file is what the last call that writes it would alone have made of
it: edited from what it was at first by that call, or not at all. -/
theorem stamps_settle (calls : List Call) (path : Str) (w : World) :
    (Runs.exec Call.step w calls).files path =
        (calls.filter (Call.Writes path)).getLast?.elim (w.files path)
          (fun c => (c.step w).files path) ∧
      ∀ data, w.files path = some data →
        ∃ data', (Runs.exec Call.step w calls).files path = some data' ∧
          (data' = data ∨ ∃ c ∈ calls, c.path = path ∧ Edited data data' c.major c.minor) := by
  have hlast : (Runs.exec Call.step w calls).files path =
      (calls.filter (Call.Writes path)).getLast?.elim (w.files path)
        (fun c => (c.step w).files path) :=
    Runs.exec_last (fun w => w.files path)
      (fun w c hidle => (Call.step_files c path w).trans (if_neg hidle))
      (fun w c d hd => Call.step_step c hd) w calls
  refine ⟨hlast, fun data hdata => ?_⟩
  rw [hlast]
  cases hc : (calls.filter (Call.Writes path)).getLast? with
  | none => exact ⟨data, hdata, .inl rfl⟩
  | some c =>
    have hmem : c ∈ calls := (List.mem_filter.mp (List.mem_of_getLast? hc)).1
    obtain ⟨data', hdata', hsame | hedited⟩ := c.step_edited hdata
    · exact ⟨data', hdata', .inl hsame⟩
    · exact ⟨data', hdata', .inr ⟨c, hmem, hedited⟩⟩

end Nt351.Stamp
