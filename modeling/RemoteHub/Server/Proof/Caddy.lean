import RemoteHub.Lib.Changes
import RemoteHub.Server.Caddy

/-!
# When Caddy's files are whole

`changes tls`: what serving with `tls` makes of the files, in its order. `serve_run` is what comes of it
in any world where the file system works again after Caddy's answer, and `serve_whole_iff` when one
failing step leaves the files as they were.
-/

namespace Server.Caddy

open Changes

variable {failing : Failing} {file : File} {d : Dir} {op : Op} {torn : Failure → Dir → Dir}
  {done : Dir → Dir} {stops : File → Bool}

theorem operation_error {failure : Failure} (h : failing op file = some failure) :
    (operation failing op file torn done).run d =
      (.error (.files failure.error), torn failure d) := by
  unfold operation
  rw [h]
  rfl

theorem operation_ok (h : failing op file = none) :
    (operation failing op file torn done).run d = (.ok (), done d) := by
  unfold operation
  rw [h]
  rfl

theorem remove_makes (h : stops file = (failing .remove file).isSome) :
    Makes Dir.files stops (remove failing file) [(file, none)] := by
  refine .single (fun hstops d => ?_) (fun hstops d => ?_)
  · obtain ⟨failure, hfailure⟩ := Option.isSome_iff_exists.1 (h ▸ hstops)
    exact ⟨_, d, operation_error hfailure, rfl⟩
  · rw [h, Option.not_isSome_iff_eq_none] at hstops
    exact ⟨_, operation_ok hstops, rfl⟩

/-- One of the operations of writing a file fails. -/
def writeStops (failing : Failing) (file : File) : Bool :=
  (failing .create file).isSome || (failing .write file).isSome || (failing .sync file).isSome ||
    (failing .rename file).isSome

/-- Until the new file is renamed into place, the file is as it was. -/
theorem write_makes {content : Bytes} (h : stops file = writeStops failing file) :
    Makes Dir.files stops (write failing file content) [(file, some content)] := by
  refine .single (fun hstops d => ?_) (fun hstops d => ?_)
  · cases hcreate : failing .create file with
    | some _ => exact ⟨_, _, run_bind_error (operation_error hcreate), rfl⟩
    | none =>
      unfold write
      rw [run_bind_ok (operation_ok hcreate)]
      cases hwrite : failing .write file with
      | some _ => exact ⟨_, _, run_bind_error (operation_error hwrite), rfl⟩
      | none =>
        rw [run_bind_ok (operation_ok hwrite)]
        cases hsync : failing .sync file with
        | some _ => exact ⟨_, _, run_bind_error (operation_error hsync), rfl⟩
        | none =>
          rw [run_bind_ok (operation_ok hsync)]
          cases hrename : failing .rename file with
          | some _ => exact ⟨_, _, operation_error hrename, rfl⟩
          | none => simp [h, writeStops, hcreate, hwrite, hsync, hrename] at hstops
  · simp only [h, writeStops, Bool.or_eq_true, not_or, Option.not_isSome_iff_eq_none] at hstops
    obtain ⟨⟨⟨hcreate, hwrite⟩, hsync⟩, hrename⟩ := hstops
    unfold write
    rw [run_bind_ok (operation_ok hcreate), run_bind_ok (operation_ok hwrite),
      run_bind_ok (operation_ok hsync)]
    refine ⟨_, operation_ok hrename, ?_⟩
    simp

/-! ## The files of a setting -/

/-- What serving with `tls` makes of the files, in its order. -/
def changes (tls : Tls) : List (File × Option Bytes) :=
  match tls with
  | .automatic =>
    [(.certificate, none), (.key, none), (.snippet, some (Text.utf8 (snippet tls)))]
  | .own chain key =>
    [(.certificate, some (Text.utf8 chain)), (.key, some (Text.utf8 key)),
      (.snippet, some (Text.utf8 (snippet tls)))]

/-- A step of what is done with the file fails. -/
def stopsAt (failing : Failing) : Tls → File → Bool
  | .automatic, .certificate => (failing .remove .certificate).isSome
  | .automatic, .key => (failing .remove .key).isSome
  | _, file => writeStops failing file

theorem writeFiles_makes (failing : Failing) (tls : Tls) :
    Makes Dir.files (stopsAt failing tls) (writeFiles failing tls) (changes tls) := by
  cases tls with
  | automatic =>
    have hremove : Makes Dir.files (stopsAt failing .automatic)
        ([File.certificate, .key].forM (remove failing)) [(.certificate, none), (.key, none)] :=
      .forM (fun file => (file, none)) fun file hfile => remove_makes (by
        rcases List.mem_pair.1 hfile with rfl | rfl <;> rfl)
    exact hremove.bind (write_makes rfl)
  | own chain key =>
    have hown (file : File) :
        stopsAt failing (.own chain key) file = writeStops failing file := rfl
    exact (write_makes (hown .certificate)).bind
      ((write_makes (hown .key)).bind (write_makes (hown .snippet)))

theorem map_fst_changes (tls : Tls) :
    (changes tls).map Prod.fst = [.certificate, .key, .snippet] := by
  cases tls <;> rfl

theorem changes_nodup (tls : Tls) : ((changes tls).map Prod.fst).Nodup := by
  rw [map_fst_changes]
  decide

theorem restore_makes (files : Files) :
    Makes Dir.files (fun _ => false) (files.restore fun _ _ => none) files := by
  have hforM : Makes Dir.files (fun _ => false) (files.restore fun _ _ => none) (files.map id) :=
    .forM id fun before _ => by
      obtain ⟨file, content⟩ := before
      cases content with
      | none => exact remove_makes rfl
      | some content => exact write_makes rfl
  rwa [List.map_id] at hforM

/-- Putting back the files read before any change. -/
theorem restore_read (d d' : Dir) (hread : ∀ file, failing .read file = none) :
    ∃ d'', ((Files.read failing d).restore fun _ _ => none).run d' = (.ok (), d'') ∧
      d''.files = d.files := by
  have hfiles : Files.read failing d =
      [File.snippet, .certificate, .key].map fun file => (file, d.files file) := by
    simp [Files.read, hread]
  obtain ⟨d'', hrun, hview⟩ : ∃ d'', ((Files.read failing d).restore fun _ _ => none).run d' =
      (.ok (), d'') ∧ d''.files = updates (Files.read failing d) d'.files := by
    have hmakes := restore_makes (Files.read failing d) d'
    rwa [if_neg (by simp)] at hmakes
  refine ⟨d'', hrun, hview.trans (updates_eq ?_ ?_ ?_)⟩
  · rw [hfiles]
    simp
  · intro file
    rw [hfiles]
    cases file <;> simp
  · rw [hfiles]
    simp

/-- What comes of serving where the file system works again once Caddy has answered. -/
theorem serve_run {w : World} (hafter : w.after = fun _ _ => none) (tls : Tls)
    (hread : load w = .ok () ∨ ∀ file, w.before .read file = none) :
    if (changes tls).any fun c => stopsAt w.before tls c.1 then
      ∃ e d', (serve w tls).run d = (.error e, d') ∧
        d'.files = updates (made (stopsAt w.before tls) (changes tls)) d.files
    else if load w = .ok () then ∃ d', (serve w tls).run d = (.ok (), d')
    else ∃ e d', (serve w tls).run d = (.error e, d') ∧ d'.files = d.files := by
  have hget : (get : Disk Dir).run d = (.ok d, d) := rfl
  have hmakes := writeFiles_makes w.before tls d
  unfold serve
  rw [run_bind_ok hget]
  split at hmakes
  case isTrue hany =>
    obtain ⟨e, d', hrun, hview⟩ := hmakes
    rw [if_pos hany]
    exact ⟨e, d', run_bind_error hrun, hview⟩
  case isFalse hany =>
    obtain ⟨d', hrun, hview⟩ := hmakes
    rw [if_neg hany, run_bind_ok hrun]
    cases hload : load w with
    | ok u =>
      rw [if_pos rfl]
      exact ⟨d', rfl⟩
    | error error =>
      rw [if_neg (by simp)]
      have hread := hread.resolve_left (by simp [hload])
      obtain ⟨d'', hrestore, hfiles⟩ := restore_read d d' hread
      refine ⟨error, d'', ?_, hfiles⟩
      rw [hafter]
      exact run_bind_ok hrestore

/-! ## One failing step -/

/-- The step of `serve` that fails; all others work. -/
inductive Fault
  | operation (op : Op) (file : File) (failure : Failure)
  | caddyfile (error : String)
  | unreachable (why : String)
  | refused (status : Nat) (body : String)

def Fault.world : Fault → World
  | .operation op file failure =>
    { before := fun op' file' => if op' = op ∧ file' = file then some failure else none
      after := fun _ _ => none, caddyfile := none, answer := .ok (200, "") }
  | .caddyfile error =>
    { before := fun _ _ => none, after := fun _ _ => none, caddyfile := some error
      answer := .ok (200, "") }
  | .unreachable why =>
    { before := fun _ _ => none, after := fun _ _ => none, caddyfile := none, answer := .error why }
  | .refused status body =>
    { before := fun _ _ => none, after := fun _ _ => none, caddyfile := none
      answer := .ok (status, body) }

/-- The changes made before the failing one, where one fails. -/
def Fault.made (fault : Fault) (tls : Tls) : List (File × Option Bytes) :=
  if (changes tls).any fun c => stopsAt fault.world.before tls c.1 then
    Changes.made (stopsAt fault.world.before tls) (changes tls)
  else []

theorem Fault.after (fault : Fault) : fault.world.after = fun _ _ => none := by
  cases fault <;> rfl

theorem Fault.load_or_read (fault : Fault) :
    load fault.world = .ok () ∨ ∀ file, fault.world.before .read file = none := by
  cases fault with
  | operation op file failure => exact .inl rfl
  | caddyfile error => exact .inr fun _ => rfl
  | unreachable why => exact .inr fun _ => rfl
  | refused status body => exact .inr fun _ => rfl

/-- With one failing step, the files are as before whenever serving fails exactly if the changes
made before that step put what was there. -/
theorem serve_whole_iff (fault : Fault) (tls : Tls) (d : Dir) :
    (∀ e d', (serve fault.world tls).run d = (.error e, d') → d'.files = d.files) ↔
      ∀ c ∈ fault.made tls, d.files c.1 = c.2 := by
  have hserve := serve_run (d := d) fault.after tls fault.load_or_read
  unfold Fault.made
  by_cases hany : (changes tls).any fun c => stopsAt fault.world.before tls c.1
  · rw [if_pos hany] at hserve ⊢
    obtain ⟨e, d', hrun, hfiles⟩ := hserve
    have hnodup : ((Changes.made (stopsAt fault.world.before tls) (changes tls)).map
        Prod.fst).Nodup :=
      (changes_nodup tls).sublist ((List.takeWhile_sublist _).map _)
    rw [← updates_eq_self hnodup, ← hfiles]
    constructor
    · intro h
      exact h e d' hrun
    · intro h e' d'' hrun'
      cases hrun.symm.trans hrun'
      exact h
  · rw [if_neg hany] at hserve ⊢
    refine iff_of_true (fun e d' hrun => ?_) (fun c hc => by cases hc)
    split at hserve
    · obtain ⟨d'', hrun'⟩ := hserve
      cases hrun.symm.trans hrun'
    · obtain ⟨e', d'', hrun', hfiles⟩ := hserve
      cases hrun.symm.trans hrun'
      exact hfiles

/-- A new certificate beside an old key. -/
theorem new_beside_old : ¬∀ (fault : Fault) (tls : Tls) (d : Dir) (e : CaddyError) (d' : Dir),
    (serve fault.world tls).run d = (.error e, d') → d'.files = d.files := by
  intro h
  have hfiles := h (.operation .rename .key ⟨"EIO", 0⟩) (.own "new" "new")
    ⟨fun _ => some (Text.utf8 "old"), fun _ => none⟩ _ _ rfl
  have hcertificate := congrFun hfiles .certificate
  revert hcertificate
  decide

end Server.Caddy
