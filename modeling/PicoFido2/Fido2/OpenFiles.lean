import PicoFido2.Fido2.Handles
import PicoFido2.Fido2.Isolation

/-! The whole effect of a host without a PIN. On the files of the FIDO and OTP applications it
has a store of its own: every write and update is done, and every read gets what was put
last. All other files are after every run what they were before it. -/

namespace PicoFido2.Fido2

open Machine

/-! ### The open rows -/

/-- The number of a row that has no constant. -/
def Fid.plain? : Fid → Option (BitVec 16)
  | num fid => some fid
  | .ef _ => none

section Table

set_option maxRecDepth 4096

/-- The rows with the access bytes `{ 0xff }` are those of the FIDO and OTP applications. -/
theorem fidoOtp_of_short : ∀ file ∈ fileEntries,
    file.acl = aclShort → ∃ e ∈ fidoOtpFiles, file.fid = .ef e := by
  decide

theorem short_of_fidoOtp : ∀ file ∈ fileEntries, ∀ e ∈ fidoOtpFiles,
    file.fid = .ef e → file.acl = aclShort := by
  decide +kernel

theorem exists_row : ∀ e ∈ fidoOtpFiles, ∃ file ∈ fileEntries.dropLast, file.fid = .ef e := by
  decide +kernel

theorem plain_numbers : ∀ file ∈ fileEntries,
    file.fid.plain?.all fun fid => fid = 0x3f00 ∨ fid = 0 := by
  decide

end Table

variable {card : Card} {ef : Ef → BitVec 16}

section Rows

variable (hinj : Function.Injective ef) (h0 : ∀ e, ef e ≠ 0) (hmf : ∀ e, ef e ≠ 0x3f00)
include hinj h0 hmf

/-- A row with the number of a constant is a row of that constant. -/
theorem fid_of_value {file : FileEntry} (hmem : file ∈ fileEntries) {e : Ef}
    (h : file.fid.value ef = ef e) : file.fid = .ef e := by
  have hplain := plain_numbers file hmem
  cases hfid : file.fid with
  | num n =>
    rw [hfid] at h hplain
    have hnumber : n = 0x3f00 ∨ n = 0 := by simpa [Fid.plain?] using hplain
    rcases hnumber with rfl | rfl
    · exact absurd h.symm (hmf e)
    · exact absurd h.symm (h0 e)
  | ef e' =>
    rw [hfid] at h
    rw [hinj h]

/-- An open file is found, with its contents in the flash. -/
theorem search_open {e : Ef} (he : e ∈ fidoOtpFiles) : ∃ file, searchByFid ef (ef e) = some file ∧
    file.fid = .ef e ∧ file.acl = aclShort ∧ file.data = .flash := by
  obtain ⟨row, hrow, hfid⟩ := exists_row e he
  have hsome : (searchByFid ef (ef e)).isSome := by
    rw [searchByFid, List.find?_isSome]
    refine ⟨row, hrow, ?_⟩
    rw [decide_eq_true_eq, hfid]
    exact ⟨h0 e, rfl⟩
  obtain ⟨file, hfile⟩ := Option.isSome_iff_exists.mp hsome
  obtain ⟨hmem, hvalue⟩ := searchByFid_mem hfile
  have hconstant := fid_of_value hinj h0 hmf hmem hvalue
  have hshort := short_of_fidoOtp file hmem e he hconstant
  exact ⟨file, hfile, hconstant, hshort, (flash_of_short file hmem hshort).2⟩

end Rows

/-! ### Requests -/

/-- What a request puts into the file `fid`. -/
def Request.put? (fid : BitVec 16) (r : Request) : Option Bytes :=
  if r.fid = fid ∧ r.access ≠ .read then some r.data else none

/-- What a run puts into the file `fid` last. -/
def lastPut (fid : BitVec 16) (run : List Request) : Option Bytes :=
  (run.filterMap (Request.put? fid)).getLast?

theorem lastPut_cons (fid : BitVec 16) (r : Request) (run : List Request) (v : Option Bytes) :
    (lastPut fid (r :: run)).or v = (lastPut fid run).or ((r.put? fid).or v) := by
  unfold lastPut
  rw [List.filterMap_cons]
  cases r.put? fid with
  | none => rfl
  | some data =>
    rw [List.getLast?_cons]
    cases (run.filterMap (Request.put? fid)).getLast? <;> rfl

/-- A request changes no file but the one it names. -/
theorem respond_other {r : Request} {fid : BitVec 16} (h : r.fid ≠ fid) (s : Store) :
    (respond card ef r s).2 fid = s fid := by
  cases hfile : searchByFid ef r.fid with
  | none => rw [(respond_denied (fun file hsome => by simp [hfile] at hsome) s).1]
  | some file =>
    have hvalue := (searchByFid_mem hfile).2
    have hput : file.put ef r.data s fid = s fid := by
      cases hdata : file.data with
      | flash =>
        simp only [FileEntry.put, hdata]
        rw [hvalue]
        exact Function.update_of_ne (Ne.symm h) _ _
      | _ => simp only [FileEntry.put, hdata]
    by_cases hgranted : file.acl.granted r.access
    · by_cases hread : r.access = .read
      · rw [respond_read hread hfile hgranted]
      · rw [respond_put hread hfile hgranted]
        exact hput
    · rw [(respond_denied (fun file' hsome => ?_) s).1]
      obtain rfl : file = file' := Option.some.inj (hfile.symm.trans hsome)
      simpa using hgranted

section Requests

variable (hinj : Function.Injective ef) (h0 : ∀ e, ef e ≠ 0) (hmf : ∀ e, ef e ≠ 0x3f00)
include hinj h0 hmf

theorem respond_open_read {e : Ef} (he : e ∈ fidoOtpFiles) {r : Request} (hr : r.fid = ef e)
    (hread : r.access = .read) (s : Store) :
    respond card ef r s = (.contents (s (ef e)), s) := by
  obtain ⟨file, hfile, hfid, hshort, hflash⟩ := search_open hinj h0 hmf he
  rw [← hr] at hfile
  rw [respond_read hread hfile (granted_of_short hshort r.access), FileEntry.contents, hflash, hfid]
  rfl

theorem respond_open_put {e : Ef} (he : e ∈ fidoOtpFiles) {r : Request} (hr : r.fid = ef e)
    (hput : r.access ≠ .read) (s : Store) :
    respond card ef r s = (.done, Function.update s (ef e) (some r.data)) := by
  obtain ⟨file, hfile, hfid, hshort, hflash⟩ := search_open hinj h0 hmf he
  rw [← hr] at hfile
  rw [respond_put hput hfile (granted_of_short hshort r.access), FileEntry.put, hflash, hfid]
  rfl

/-- What an open file has after a request. -/
theorem respond_open {e : Ef} (he : e ∈ fidoOtpFiles) (r : Request) (s : Store) :
    (respond card ef r s).2 (ef e) = (r.put? (ef e)).or (s (ef e)) := by
  unfold Request.put?
  by_cases hr : r.fid = ef e
  · by_cases hread : r.access = .read
    · rw [respond_open_read hinj h0 hmf he hr hread, if_neg (fun h => h.2 hread)]
      rfl
    · rw [respond_open_put hinj h0 hmf he hr hread, if_pos ⟨hr, hread⟩]
      exact Function.update_self _ _ _
  · rw [respond_other hr, if_neg (fun h => hr h.1)]
    rfl

omit hinj h0 hmf in
/-- No request changes a file that is not open. -/
theorem respond_closed {fid : BitVec 16} (h : ∀ e ∈ fidoOtpFiles, ef e ≠ fid) (r : Request)
    (s : Store) : (respond card ef r s).2 fid = s fid := by
  by_cases hopens : r.OpensShort ef
  · obtain ⟨file, hfile, hshort, -⟩ := hopens
    obtain ⟨hmem, hvalue⟩ := searchByFid_mem hfile
    obtain ⟨e, he, hfid⟩ := fidoOtp_of_short file hmem hshort
    apply respond_other
    rw [← hvalue, hfid]
    exact h e he
  · rw [respond_fixed hopens]

/-! ### Runs -/

theorem final_open {e : Ef} (he : e ∈ fidoOtpFiles) (run : List Request) (s : Store) :
    final (respond card ef) run s (ef e) = (lastPut (ef e) run).or (s (ef e)) := by
  induction run generalizing s with
  | nil => rfl
  | cons r run ih => rw [final, ih, respond_open hinj h0 hmf he, lastPut_cons]

omit hinj h0 hmf in
theorem final_closed {fid : BitVec 16} (h : ∀ e ∈ fidoOtpFiles, ef e ≠ fid) (run : List Request)
    (s : Store) : final (respond card ef) run s fid = s fid := by
  induction run generalizing s with
  | nil => rfl
  | cons r run ih => rw [final, ih, respond_closed h]

/-- In every run of requests of a host without a PIN: each of the files of the FIDO and OTP
applications has at the end what was put into it last, or what it had; every write and
update of one is done, and every read of one gets what was put into it last before; and
every other file number has what it had. -/
theorem open_files (run : List Request) (s : Store) :
    (∀ e ∈ fidoOtpFiles,
      final (respond card ef) run s (ef e) = (lastPut (ef e) run).or (s (ef e))) ∧
    (∀ e ∈ fidoOtpFiles, ∀ before r after, run = before ++ r :: after → r.fid = ef e →
      (r.access ≠ .read → (outputs (respond card ef) run s)[before.length]? = some .done) ∧
      (r.access = .read → (outputs (respond card ef) run s)[before.length]? =
        some (.contents ((lastPut (ef e) before).or (s (ef e)))))) ∧
    ∀ fid, (∀ e ∈ fidoOtpFiles, ef e ≠ fid) → final (respond card ef) run s fid = s fid := by
  refine ⟨fun e he => final_open hinj h0 hmf he run s, ?_, fun fid h => final_closed h run s⟩
  rintro e he before r after rfl hr
  rw [outputs_at]
  constructor
  · intro hput
    rw [respond_open_put hinj h0 hmf he hr hput]
  · intro hread
    rw [respond_open_read hinj h0 hmf he hr hread, final_open hinj h0 hmf he]

end Requests

/-- A host overwrites the PIN of an authenticator and reads it back. -/
theorem open_files_pin : (outputs (respond blankCard efNumber)
    [⟨.update, efNumber .pin, [0x08]⟩, ⟨.read, efNumber .pin, []⟩] fun _ => none)[1]? =
      some (.contents (some [0x08])) := by
  have hopen := (@open_files blankCard efNumber efNumber_injective (fun e => (efNumber_ne e).1)
    (fun e => (efNumber_ne e).2) [⟨.update, efNumber .pin, [0x08]⟩, ⟨.read, efNumber .pin, []⟩]
    fun _ => none).2.1 .pin (by decide) [⟨.update, efNumber .pin, [0x08]⟩] _ [] rfl rfl
  exact (hopen.2 rfl).trans (by decide +kernel)

end PicoFido2.Fido2
