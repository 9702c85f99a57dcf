import PicoFido2.Fido2.FileRequests
import PicoFido2.Keyed.Handles

/-! The handles of the file table: its rows, found by file number or by position, and
the pointers `file_openpgp` and `file_last`. Two rows have one file number, so they
share their contents and the second is never found; and `file_openpgp`, counted from the
end of the table, is not the row with the name of the OpenPGP application. -/

namespace PicoFido2.Fido2

/-- A place in the table. -/
abbrev Row := Fin fileEntries.length

theorem fileEntries_length : fileEntries.length = 147 := by decide +kernel

def fileOpenpgp : Row := ⟨fileEntries.length - 2, by rw [fileEntries_length]; decide⟩

def fileLast : Row := ⟨fileEntries.length - 1, by rw [fileEntries_length]; decide⟩

/-- The position of the first row with a file number, up to `file_last`. -/
def searchRow (ef : Ef → BitVec 16) (fid : BitVec 16) : Option ℕ :=
  (fileEntries.take fileLast).findIdx? fun file =>
    file.fid.value ef ≠ 0 ∧ file.fid.value ef = fid

/-- A row of type `FILE_DATA_FLASH`. -/
structure FlashRow where
  row : Row
  flash : (fileEntries.get row).data = .flash
  deriving DecidableEq

def FlashRow.entry (r : FlashRow) : FileEntry := fileEntries.get r.row

theorem FlashRow.ext_row {r t : FlashRow} (h : r.row.val = t.row.val) : r = t := by
  obtain ⟨i, hi⟩ := r
  obtain ⟨j, hj⟩ := t
  obtain rfl : i = j := Fin.ext h
  rfl

def FlashRow.fid (ef : Ef → BitVec 16) (r : FlashRow) : BitVec 16 := r.entry.fid.value ef

/-- Rows 81 and 82 are both `EF_PIV_KEY_RETIRED12`. -/
def retired12 : FlashRow := ⟨⟨81, by rw [fileEntries_length]; decide⟩, rfl⟩

def retired12Again : FlashRow := ⟨⟨82, by rw [fileEntries_length]; decide⟩, rfl⟩

/-! ### The numbers of the rows -/

/-- The place of a row's constant among the constants, which stand in the order of the table. -/
def efPlace (i : ℕ) : ℕ := if i ≤ 81 then i - 1 else if i ≤ 131 then i - 2 else i - 3

/-- A row has the constant of its place, or one of two plain numbers and no data in flash. -/
def rowFits (i : ℕ) (file : FileEntry) : Bool :=
  match file.fid with
  | .ef e => e.ctorIdx = efPlace i ∧ 0 < i ∧ i ≠ 132 ∧ i < 146
  | .num n => (n = 0x3f00 ∨ n = 0) ∧ file.data ≠ .flash

theorem rowFits_get (i : Row) : rowFits i (fileEntries.get i) = true := by
  revert i
  decide +kernel

/-- The two rows of one constant, or one row twice. -/
def Shares (i j : ℕ) : Prop := i = j ∨ (i = 81 ∧ j = 82) ∨ (i = 82 ∧ j = 81)

theorem shares_of_efPlace {i j : ℕ} (hi : 0 < i ∧ i ≠ 132) (hj : 0 < j ∧ j ≠ 132)
    (h : efPlace i = efPlace j) : Shares i j := by
  unfold efPlace at h
  unfold Shares
  split_ifs at h <;> omega

theorem FlashRow.exists_ef (r : FlashRow) : ∃ e, r.entry.fid = .ef e ∧
    e.ctorIdx = efPlace r.row ∧ 0 < r.row.val ∧ r.row.val ≠ 132 ∧ r.row.val < 146 := by
  have hfits := rowFits_get r.row
  unfold rowFits at hfits
  split at hfits
  · rename_i e he
    exact ⟨e, he, by simpa using hfits⟩
  · simp only [decide_eq_true_eq] at hfits
    exact absurd r.flash hfits.2

section Numbers

variable {ef : Ef → BitVec 16} (hinj : Function.Injective ef)
include hinj

/-- Only the two rows of one constant have one number, and no other row has theirs. -/
theorem shares_of_fid (h0 : ∀ e, ef e ≠ 0) (hmf : ∀ e, ef e ≠ 0x3f00) {i : Row} {r : FlashRow}
    (h : (fileEntries.get i).fid.value ef = r.fid ef) : Shares i r.row := by
  obtain ⟨e, he, hplace, hpos, hne, -⟩ := r.exists_ef
  have hr : r.fid ef = ef e := by rw [FlashRow.fid, he, Fid.value]
  have hfits := rowFits_get i
  unfold rowFits at hfits
  rw [hr] at h
  split at hfits
  · rename_i e' he'
    rw [he'] at h
    have hee : e' = e := hinj h
    simp only [decide_eq_true_eq] at hfits
    obtain ⟨hplace', hpos', hne', -⟩ := hfits
    refine shares_of_efPlace ⟨hpos', hne'⟩ ⟨hpos, hne⟩ ?_
    rw [← hplace', ← hplace, hee]
  · rename_i n hn
    rw [hn] at h
    simp only [decide_eq_true_eq] at hfits
    rcases hfits.1 with rfl | rfl
    · exact absurd h.symm (hmf e)
    · exact absurd h.symm (h0 e)

/-- The lookup of a row's number ends at the row, but for the second row of one constant. -/
theorem searchRow_fid (h0 : ∀ e, ef e ≠ 0) (hmf : ∀ e, ef e ≠ 0x3f00) (r : FlashRow) :
    searchRow ef (r.fid ef) = some (if r.row.val = 82 then 81 else r.row.val) := by
  obtain ⟨e, he, -, -, -, hlast⟩ := r.exists_ef
  have hne : r.fid ef ≠ 0 := by
    rw [FlashRow.fid, he]
    exact h0 e
  have hlen : (fileEntries.take fileLast).length = 146 := by
    have hval : fileLast.val = fileEntries.length - 1 := rfl
    rw [List.length_take, hval, fileEntries_length]
    rfl
  have hk : (if r.row.val = 82 then 81 else r.row.val) < 146 := by split <;> omega
  rw [searchRow, List.findIdx?_eq_some_iff_getElem]
  refine ⟨by rw [hlen]; exact hk, ?_, fun j hj => ?_⟩
  · rw [List.getElem_take]
    have hfid : ∀ k (hk : k < fileEntries.length), k = (if r.row.val = 82 then 81 else r.row.val) →
        fileEntries[k].fid.value ef = r.fid ef := by
      intro k hklt hkeq
      split at hkeq
      · rename_i h82
        obtain rfl : r = retired12Again := FlashRow.ext_row h82
        subst hkeq
        rfl
      · subst hkeq
        rfl
    rw [decide_eq_true_eq, hfid _ _ rfl]
    exact ⟨hne, rfl⟩
  · rw [List.getElem_take, decide_eq_true_eq, not_and]
    intro _ hsame
    have hjlt : j < fileEntries.length := by rw [fileEntries_length]; omega
    have hshare := shares_of_fid hinj h0 hmf (i := ⟨j, hjlt⟩) hsame
    unfold Shares at hshare
    split at hj <;> simp only at hshare <;> omega

end Numbers

/-! ### Contents -/

section Contents

variable (card : Card) (ef : Ef → BitVec 16)

def writeRows (s : Store) (ws : List (FlashRow × Bytes)) : Store :=
  ws.foldl (fun s w => w.1.entry.put ef w.2 s) s

/-- What was last written through a row, or what it held at first. -/
def ownContents (s : Store) (ws : List (FlashRow × Bytes)) (r : FlashRow) : Option Bytes :=
  ws.foldl (fun v w => if w.1 = r then some w.2 else v) (s (r.fid ef))

/-- Every row reads back what was last written through it. -/
def ReadsBack (s : Store) (ws : List (FlashRow × Bytes)) : Prop :=
  ∀ r : FlashRow, r.entry.contents card ef (writeRows ef s ws) = ownContents ef s ws r

/-- The files of the FIDO and OTP applications. -/
def fidoOtpFiles : List Ef :=
  [.keyDev, .keyDevEnc, .mkek, .eeDev, .eeDevEa, .counter, .pin, .authtoken, .pauthtoken,
    .minpinlen, .opts, .largeblob, .otpPin]

/-- A pointer into the table is the row of the OpenPGP application and no file of the others. -/
def IsOpenpgp (i : Row) : Prop :=
  (fileEntries.get i).name = some .openpgpAid ∧
    ∀ e ∈ fidoOtpFiles, (fileEntries.get i).fid ≠ .ef e

/-- Over a run of writes every handle denotes its own file. -/
structure OwnFiles (s : Store) (ws : List (FlashRow × Bytes)) : Prop where
  reads : ReadsBack card ef s ws
  found : ∀ r : FlashRow, searchRow ef (r.fid ef) = some r.row.val
  openpgp : IsOpenpgp fileOpenpgp

variable {card ef}

theorem writeRows_eq (s : Store) (ws : List (FlashRow × Bytes)) :
    writeRows ef s ws = Keyed.writes (FlashRow.fid ef) s (ws.map fun w => (w.1, some w.2)) := by
  have hput : ∀ (r : FlashRow) (data : Bytes) (s : Store),
      r.entry.put ef data s = Function.update s (r.fid ef) (some data) := by
    intro r data s
    rw [FileEntry.put, FlashRow.entry, r.flash]
    rfl
  simp only [writeRows, Keyed.writes, List.foldl_map, Keyed.write, hput]

theorem ownContents_eq (s : Store) (ws : List (FlashRow × Bytes)) (r : FlashRow) :
    ownContents ef s ws r =
      Keyed.own (FlashRow.fid ef) s (ws.map fun w => (w.1, some w.2)) r := by
  simp only [ownContents, Keyed.own, List.foldl_map]

theorem contents_flash (s : Store) (r : FlashRow) :
    r.entry.contents card ef s = s (r.fid ef) := by
  rw [FileEntry.contents, FlashRow.entry, r.flash]
  rfl

theorem openpgp_is_otpPin : (fileEntries.get fileOpenpgp).name = none ∧
    (fileEntries.get fileOpenpgp).fid = .ef .otpPin := by
  constructor <;> decide +kernel

theorem not_isOpenpgp_fileOpenpgp : ¬ IsOpenpgp fileOpenpgp := by
  intro h
  rw [IsOpenpgp, openpgp_is_otpPin.1] at h
  cases h.1

/-- A run reads back exactly where the two rows of `EF_PIV_KEY_RETIRED12` would hold the
same if each had a file of its own. The lookup finds every row but the second of these,
and `file_openpgp` is the row of the OTP PIN, so that the table never denotes its files. -/
theorem own_files_never (hinj : Function.Injective ef) (h0 : ∀ e, ef e ≠ 0)
    (hmf : ∀ e, ef e ≠ 0x3f00) (s : Store) (ws : List (FlashRow × Bytes)) :
    ¬ OwnFiles card ef s ws ∧
      (ReadsBack card ef s ws ↔
        ownContents ef s ws retired12 = ownContents ef s ws retired12Again) ∧
      (∀ r : FlashRow, searchRow ef (r.fid ef) = some r.row.val ↔ r ≠ retired12Again) ∧
      ¬ IsOpenpgp fileOpenpgp := by
  refine ⟨fun h => not_isOpenpgp_fileOpenpgp h.openpgp, ?_, fun r => ?_, not_isOpenpgp_fileOpenpgp⟩
  · unfold ReadsBack
    simp only [contents_flash, ownContents_eq, writeRows_eq, Keyed.reads_own_iff]
    constructor
    · intro h
      exact h retired12 retired12Again rfl
    · intro h r t hrt
      have hshare : Shares r.row t.row := shares_of_fid hinj h0 hmf hrt
      rcases hshare with hij | ⟨hi, hj⟩ | ⟨hi, hj⟩
      · rw [FlashRow.ext_row hij]
      · obtain rfl : r = retired12 := FlashRow.ext_row hi
        obtain rfl : t = retired12Again := FlashRow.ext_row hj
        exact h
      · obtain rfl : r = retired12Again := FlashRow.ext_row hi
        obtain rfl : t = retired12 := FlashRow.ext_row hj
        exact h.symm
  · rw [searchRow_fid hinj h0 hmf]
    constructor
    · rintro h rfl
      cases h
    · intro hne
      have h82 : r.row.val ≠ 82 := fun h => hne (FlashRow.ext_row h)
      rw [if_neg h82]

end Contents

theorem efNumber_ne (e : Ef) : efNumber e ≠ 0 ∧ efNumber e ≠ 0x3f00 := by
  cases e <;> decide

/-- The same data through both rows reads back. -/
theorem same_data_reads_back : ReadsBack blankCard efNumber (fun _ => none)
    [(retired12, [0x01]), (retired12Again, [0x01])] :=
  (own_files_never efNumber_injective (fun e => (efNumber_ne e).1) (fun e => (efNumber_ne e).2)
    (fun _ => none) [(retired12, [0x01]), (retired12Again, [0x01])]).2.1.mpr (by decide +kernel)

/-- A write through the second row changes what the first reads, and `file_openpgp` has the
number of the OTP PIN. -/
theorem second_row_overwrites :
    (Function.Injective efNumber ∧ ∀ e, efNumber e ≠ 0 ∧ efNumber e ≠ 0x3f00) ∧
    ¬ ReadsBack blankCard efNumber (fun _ => none)
      [(retired12, [0x01]), (retired12Again, [0x02])] ∧
    (fileEntries.get fileOpenpgp).fid.value efNumber = efNumber .otpPin ∧
    ¬ IsOpenpgp fileOpenpgp := by
  refine ⟨⟨efNumber_injective, efNumber_ne⟩, fun h => ?_, ?_, not_isOpenpgp_fileOpenpgp⟩
  · have hread := h retired12
    revert hread
    decide +kernel
  · rw [openpgp_is_otpPin.2, Fid.value]

end PicoFido2.Fido2
