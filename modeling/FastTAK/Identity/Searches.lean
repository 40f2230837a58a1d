import FastTAK.Identity.LostResponse
import FastTAK.Identity.Sequential

/-!
# Searches for users

A search notes the id of every user it finds, so that an operation by id that follows
finds the user without another look at the directory.
-/

namespace FastTAK.Identity

open FastTAK.Effect FastTAK.Effect.Prog

variable {settings : Settings}

/-! ## A search -/

/-- The users that a search by the client finds. -/
def foundUsers (settings : Settings) (client : Client) (text : String) (dir : Directory) :
    List Directory.UserView :=
  dir.users.filter fun u => !isHidden settings client u.id && (text = "" ||
    (settings.lower text).toList <:+: (settings.lower u.id).toList ||
    (settings.lower text).toList <:+: (settings.lower u.displayName).toList)

/-- The ids of the users are noted one after another. -/
def noteAll (client : Client) (users : List Directory.UserView) (s : IdentityState settings) :
    IdentityState settings := users.foldl (fun s u => noteId client u.id s) s

theorem noteAll_directory (client : Client) (users : List Directory.UserView)
    (s : IdentityState settings) : (noteAll client users s).directory = s.directory := by
  induction users generalizing s with
  | nil => rfl
  | cons u users ih => exact ih (noteId client u.id s)

theorem noteAll_append (client : Client) (users : List Directory.UserView)
    (u : Directory.UserView) (s : IdentityState settings) :
    noteAll client (users ++ [u]) s = noteId client u.id (noteAll client users s) := by
  rw [noteAll, List.foldl_append]
  rfl

/-- Every id leads to one of the users, if not to its own. -/
theorem known_noteAll {client : Client} {users : List Directory.UserView}
    (s : IdentityState settings) {u : Directory.UserView} (hu : u ∈ users) :
    ∃ v ∈ users, Known client (settings.numericId u.id) v.id (noteAll client users s) := by
  induction users using List.reverseRecOn with
  | nil => cases hu
  | append_singleton users last ih =>
      rw [noteAll_append]
      by_cases hsame : settings.numericId u.id = settings.numericId last.id
      · refine ⟨last, by simp, ?_⟩
        rw [hsame]
        exact lookup_noteId client last.id _
      · have hother : u ∈ users := by
          rcases List.mem_append.mp hu with hmem | hmem
          · exact hmem
          · rw [List.mem_singleton.mp hmem] at hsame
            exact absurd rfl hsame
        obtain ⟨v, hv, hknown⟩ := ih hother
        refine ⟨v, List.mem_append_left _ hv, ?_⟩
        simp only [Known, noteId, if_pos, IdMap.lookup, IdMap.note]
        rw [AList.lookup_insert_ne hsame]
        exact hknown

theorem run_formatUsers (client : Client) (users : List Directory.UserView)
    (s : IdentityState settings) :
    (mapList (formatUser client) users).run s =
      (.ok (users.map (toRecord settings)), noteAll client users s) := by
  induction users generalizing s with
  | nil => rfl
  | cons u users ih =>
      have hfirst : (formatUser client u).run s =
          (.ok (toRecord settings u), noteId client u.id s) := rfl
      rw [mapList, run_bind, Call.bind_of_ok hfirst, run_bind, Call.bind_of_ok (ih _)]
      rfl

/-- A search that returns lists the users it finds, and their ids are known. -/
theorem alone_listUsers (client : Client) (text : String) (s : IdentityState settings) :
    Alone (fun _ _ => True) (fun result s' => ∀ records, result = .ok records →
      records = (foundUsers settings client text s.directory).map (toRecord settings) ∧
        ∃ queue, s' = noteAll client (foundUsers settings client text s.directory)
          (withQueue queue s)) (listUsers client (some text)) s := by
  have hquery : Alone Quiet (fun result s' => ∀ users, result = .ok users →
      users = s.directory.users ∧ ∃ queue, s' = withQueue queue s)
      (query Directory.users : IdProg settings _) s := by
    apply alone_query
    · rintro queue users ⟨⟩
      exact ⟨rfl, queue, rfl⟩
    · rintro queue e users ⟨⟩
  refine alone_bind (hquery.mono (fun _ _ _ => trivial) ?_)
  rintro (e | users) s' husers
  · rintro records ⟨⟩
  · obtain ⟨rfl, queue, rfl⟩ := husers users rfl
    apply alone_of_run
    rw [run_formatUsers]
    rintro records ⟨⟩
    exact ⟨rfl, queue, rfl⟩

theorem run_listUsers (client : Client) (text : String) (s : IdentityState settings) :
    (listUsers client (some text)).run (withQueue [] s) =
      (.ok ((foundUsers settings client text s.directory).map (toRecord settings)),
        noteAll client (foundUsers settings client text s.directory) (withQueue [] s)) := by
  rw [listUsers, run_bind, Call.bind_of_ok (run_query _ s)]
  exact run_formatUsers client _ _

/-! ## By id -/

/-- The user a known id leads to. -/
theorem run_getUser_of_known {client : Client} {userId : ℤ} {u : Directory.UserView}
    {s : IdentityState settings} (hknown : Known client userId u.id s)
    (hvisible : ¬ isHidden settings client u.id) (huser : s.directory.user u.id = some u) :
    (getUser client userId).run (withQueue [] s) =
      (.ok (some (toRecord settings u)), noteId client u.id (withQueue [] s)) := by
  have hahead : Known client userId u.id (withQueue [] s) := hknown
  have hresolve := run_resolveUsername_of_known hahead
  rw [getUser, run_bind, Call.bind_of_ok hresolve]
  dsimp only
  rw [if_neg hvisible, run_bind, Call.bind_of_ok (run_query _ s), huser]
  dsimp only
  rw [if_neg hvisible]
  rfl

end FastTAK.Identity
