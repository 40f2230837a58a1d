import FastTAK.Env.Rewriters
import FastTAK.Env.Secrets

/-!
# Written values and the reader

`env_set` and `env_append` copy a value as it is, and `env_get` takes quotes and blanks off the
ends of what it reads.  A value comes back exactly when there is nothing to take off.
-/

namespace FastTAK.Env

section Other

variable {tools : Tools} {file : List Char} {key other : Key} {value : List Char}

/-- `env_set` leaves the other keys alone. -/
theorem envGet_envSet_other (hvalue : '\n' ∉ value) (hhas : envHas file key)
    (hok : (envSet tools file key value).ok) (hother : other ≠ key) :
    envGet (envSet tools file key value).file other = envGet file other := by
  obtain ⟨before, line, after, lead, hrows, hline, -, hlead, hrows'⟩ :=
    records_envSet hvalue hhas hok
  have hold : ¬ assigns other line := fun h => hother (assigns_unique h hline)
  have hnew : ¬ assigns other (lead ++ (key.chars ++ '=' :: value)) := fun h =>
    hother ((assigns_lead_iff hlead).mp h)
  rw [envGet_eq_rowGet, envGet_eq_rowGet, hrows, hrows']
  exact rowGet_other hnew hold

/-- `env_append` leaves the other keys alone. -/
theorem envGet_envAppend_other (hvalue : '\n' ∉ value)
    (hok : (envAppend tools file key value).ok) (hother : other ≠ key) :
    envGet (envAppend tools file key value).file other = envGet file other := by
  rw [envGet_eq_rowGet, envGet_eq_rowGet, records_envAppend hvalue hok]
  apply rowGet_append
  exact fun h => hother (assigns_unique h (assigns_row key value))

end Other

/-! ## One call -/

/-- What `ensure-secrets.sh` calls for a key: `env_set` if the file has it, else `env_append`. -/
def envWrite (tools : Tools) (file : List Char) (key : Key) (value : List Char) : Outcome :=
  if envHas file key then envSet tools file key value else envAppend tools file key value

/-- A call that succeeds sets the key to the value and leaves the other keys alone, and one with
a line break in the value fails and leaves the file alone. -/
def RoundTrips (file : List Char) (key : Key) (value : List Char) : Prop :=
  ∀ tools, ((envWrite tools file key value).ok →
      Agrees file (envWrite tools file key value).file [(key, value)]) ∧
    ('\n' ∈ value → envWrite tools file key value = ⟨file, false⟩)

section Call

variable {tools : Tools} {file : List Char} {key other : Key} {value : List Char}

theorem envWrite_newline (hvalue : '\n' ∈ value) :
    envWrite tools file key value = ⟨file, false⟩ := by
  rw [envWrite, envSet, envAppend, if_pos hvalue, if_pos hvalue, ite_self]

theorem envGet_envWrite (hvalue : '\n' ∉ value) (hok : (envWrite tools file key value).ok) :
    envGet (envWrite tools file key value).file key = shellValue value := by
  rw [envWrite] at hok ⊢
  split_ifs at hok ⊢ with hhas
  · exact envGet_envSet hvalue hhas hok
  · exact envGet_envAppend hvalue hok

theorem envGet_envWrite_other (hvalue : '\n' ∉ value)
    (hok : (envWrite tools file key value).ok) (hother : other ≠ key) :
    envGet (envWrite tools file key value).file other = envGet file other := by
  rw [envWrite] at hok ⊢
  split_ifs at hok ⊢ with hhas
  · exact envGet_envSet_other hvalue hhas hok hother
  · exact envGet_envAppend_other hvalue hok hother

/-- With commands that succeed, a call succeeds. -/
theorem envWrite_steady (hvalue : '\n' ∉ value) :
    (envWrite steadyTools file key value).ok := by
  rw [envWrite]
  split_ifs
  · rw [envSet, if_neg hvalue]
    rfl
  · rw [envAppend, if_neg hvalue]
    by_cases hopen : file ≠ [] ∧ file.getLast? ≠ some '\n'
    · rw [if_pos hopen]
      rfl
    · rw [if_neg hopen]
      rfl

end Call

end FastTAK.Env
