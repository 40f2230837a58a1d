import FastTAK.NodeRed.DroneSense

/-!
# A run that nothing disturbs

What `Reconcile MediaMTX` leaves behind when it runs alone and its calls succeed: the wanted
paths with their sources.  A path that the run writes gets the fingerprint that is cached for its
endpoint; one that has its source already is left as it is.
-/

namespace FastTAK.NodeRed.DroneSense

open FastTAK.Fields

/-! ## What Build CoT accumulates -/

/-- The worlds in which `dsDesired` comes from `Build CoT`, pruned by runs of the reconciler. -/
inductive Accumulated : World → Prop
  | start {w : World} (hnone : w.dsDesired = none) : Accumulated w
  | buildCot {w : World} (missionLabel payload : Js) (hw : Accumulated w) :
      Accumulated (w.buildCot missionLabel payload)
  | snapshot {w : World} (hw : Accumulated w) : Accumulated w.snapshot.1
  | other {w w' : World} (hw : Accumulated w) (hsame : w'.dsDesired = w.dsDesired) :
      Accumulated w'

section Accumulated

variable {w : World}

theorem isDs_append (id : String) : isDs ("ds/" ++ id) := by
  simp [isDs, String.isPrefixOf]

theorem mem_entries_all {parts : List Recorded} {field : String × Js}
    (hfield : field ∈ (Recorded.all parts).entries) : ∃ part ∈ parts, field ∈ part.entries := by
  induction parts with
  | nil => cases hfield
  | cons part parts ih =>
      rw [Recorded.all, List.foldr_cons, Recorded.andThen] at hfield
      split_ifs at hfield
      · exact ⟨part, by simp, hfield⟩
      · rcases List.mem_append.mp hfield with hfield | hfield
        · exact ⟨part, by simp, hfield⟩
        · obtain ⟨other, hother, hmem⟩ := ih hfield
          exact ⟨other, by simp [hother], hmem⟩

/-- The name and the source of a stream. -/
def IsStream (field : String × Js) : Prop := isDs field.1 ∧ field.2.truthy

theorem isStream_of_recordSensor {callsignBase sensor : Js} {field : String × Js}
    (hactive : (sensor.prop "rtsp_url").truthy)
    (hfield : field ∈ (recordSensor callsignBase sensor).entries) : IsStream field := by
  rw [recordSensor] at hfield
  split at hfield
  · cases hfield
  · obtain rfl := List.mem_singleton.mp hfield
    exact ⟨isDs_append _, hactive⟩

theorem isStream_of_recordItem {missionLabel item : Js} {field : String × Js}
    (hfield : field ∈ (recordItem missionLabel item).entries) : IsStream field := by
  rw [recordItem] at hfield
  split_ifs at hfield
  · cases hfield
  · cases hfield
  · dsimp only at hfield
    split at hfield
    · obtain ⟨part, hpart, hmem⟩ := mem_entries_all hfield
      simp only [List.mem_append, List.mem_singleton, List.mem_map] at hpart
      rcases hpart with (rfl | ⟨sensor, hsensor, rfl⟩) | rfl
      · cases hmem
      · exact isStream_of_recordSensor (List.mem_filter.mp hsensor).2 hmem
      · cases hmem
    · cases hfield

theorem isStream_of_recordItems {missionLabel : Js} {items : List Js} {field : String × Js}
    (hfield : field ∈ (recordItems missionLabel items).entries) : IsStream field := by
  obtain ⟨part, hpart, hmem⟩ := mem_entries_all hfield
  obtain ⟨item, -, rfl⟩ := List.mem_map.mp hpart
  exact isStream_of_recordItem hmem

/-- The entries are those of streams, one for each name. -/
structure Streams (fields : List (String × Entry)) : Prop where
  nodup : (keys fields).Nodup
  isStream : ∀ field ∈ fields, IsStream (field.1, field.2.source)

theorem Streams.nil : Streams [] := ⟨List.nodup_nil, fun field hfield => by cases hfield⟩

theorem Streams.put_all {entries : List (String × Js)} {fields : List (String × Entry)} (now : ℤ)
    (hentries : ∀ field ∈ entries, IsStream field) (hfields : Streams fields) :
    Streams (entries.foldl (fun fields field => put field.1 ⟨field.2, now⟩ fields) fields) := by
  induction entries generalizing fields with
  | nil => exact hfields
  | cons field entries ih =>
      apply ih fun other hother => hentries other (by simp [hother])
      constructor
      · exact nodup_keys_put hfields.nodup
      · intro other hother
        rcases mem_of_mem_put hother with rfl | hother
        · exact hentries field (by simp)
        · exact hfields.isStream other hother

theorem Streams.filter {fields : List (String × Entry)} (p : String × Entry → Bool)
    (hfields : Streams fields) : Streams (fields.filter p) where
  nodup := hfields.nodup.sublist (List.filter_sublist.map Prod.fst)
  isStream field hfield := hfields.isStream field (List.mem_filter.mp hfield).1

theorem streams_buildCot (missionLabel payload : Js) (hw : Streams w.desired) :
    Streams (w.buildCot missionLabel payload).desired := by
  rw [World.buildCot]
  split
  · next items _ =>
      have hstream : ∀ field ∈ (recordItems missionLabel items).entries, IsStream field :=
        fun _ => isStream_of_recordItems
      have hall := hw.put_all w.now hstream
      dsimp only
      split_ifs
      · rw [World.desired]
        cases hdesired : w.dsDesired with
        | none => exact Streams.nil
        | some fields => exact hall
      · exact hall
  · exact hw

theorem streams_of_accumulated (hw : Accumulated w) : Streams w.desired := by
  induction hw with
  | start hnone =>
      rw [World.desired, hnone]
      exact Streams.nil
  | buildCot missionLabel payload _ ih => exact streams_buildCot missionLabel payload ih
  | snapshot _ ih => exact ih.filter _
  | other _ hsame ih =>
      rw [World.desired, hsame]
      exact ih

end Accumulated

/-! ## The listing -/

section Listing

variable {page : List (String × Path)} {name : String}

theorem lookup_foldl_put {α β : Type} {f : String → β} {value : α → β} {items : List (String × α)}
    (hitems : ∀ item ∈ items, value item.2 = f item.1) (fields : List (String × β)) :
    (items.foldl (fun fields item => put item.1 (value item.2) fields) fields).lookup name =
      if name ∈ keys items then some (f name) else fields.lookup name := by
  induction items generalizing fields with
  | nil => simp [keys]
  | cons item items ih =>
      rw [List.foldl_cons, ih fun other hother => hitems other (by simp [hother])]
      by_cases hlater : name ∈ keys items
      · rw [if_pos hlater, keys_cons, if_pos (List.mem_cons_of_mem _ hlater)]
      · rw [if_neg hlater]
        by_cases hsame : name = item.1
        · subst hsame
          rw [lookup_put_self, hitems item (by simp), keys_cons, if_pos List.mem_cons_self]
        · rw [lookup_put_of_ne hsame, keys_cons, if_neg]
          simp [hsame, hlater]

theorem keys_currentOf : name ∈ keys (currentOf page) ↔ isDs name ∧ name ∈ keys page := by
  have hgen : ∀ (items : List (String × Path)) (fields : List (String × String)),
      name ∈ keys (items.foldl (fun fields item => put item.1 item.2.source fields) fields) ↔
        name ∈ keys items ∨ name ∈ keys fields := by
    intro items
    induction items with
    | nil => simp [keys]
    | cons item items ih =>
        intro fields
        rw [List.foldl_cons, ih, mem_keys_put, keys_cons, List.mem_cons]
        tauto
  rw [currentOf, hgen]
  simp only [keys, List.map_nil, List.not_mem_nil, or_false, List.mem_map, List.mem_filter]
  constructor
  · rintro ⟨item, ⟨hitem, hds⟩, rfl⟩
    exact ⟨hds, item, hitem, rfl⟩
  · rintro ⟨hds, item, hitem, rfl⟩
    exact ⟨item, ⟨hitem, hds⟩, rfl⟩

/-- A full page gives the sources of all paths of streams. -/
theorem lookup_currentOf {paths : Paths}
    (hpage : ∀ name path, (name, path) ∈ page ↔ paths name = some path) (hds : isDs name) :
    (currentOf page).lookup name = (paths name).map Path.source := by
  have hsources : ∀ item ∈ page.filter fun item => isDs item.1,
      item.2.source = ((paths item.1).map Path.source).getD "" := by
    intro item hitem
    have hpath := (hpage item.1 item.2).mp (List.mem_filter.mp hitem).1
    rw [hpath]
    rfl
  rw [currentOf, lookup_foldl_put (f := fun name => ((paths name).map Path.source).getD "")
    hsources]
  cases hpath : paths name with
  | none =>
      rw [if_neg]
      · rfl
      · intro hname
        obtain ⟨path, hmem⟩ := mem_keys_iff.mp hname
        rw [(hpage name path).mp (List.mem_filter.mp hmem).1] at hpath
        cases hpath
  | some path =>
      rw [if_pos]
      · rfl
      · apply mem_keys_iff.mpr
        exact ⟨path, List.mem_filter.mpr ⟨(hpage name path).mpr hpath, hds⟩⟩

end Listing

/-! ## Fingerprints -/

section Fingerprints

variable {url : String → Option Endpoint} {w : World} {cache : ℕ} {key : String}

/-- The fingerprint that a run uses for an endpoint: the cached one, or what it presents. -/
def World.fingerprint (w : World) (cache : ℕ) (key : String) : String :=
  let cached := ((w.cacheOf cache).lookup key).getD ""
  if cached ≠ "" then cached else w.presents key

theorem cacheOf_remember (w : World) (cache : ℕ) (key fingerprint : String) :
    (w.remember cache key fingerprint).cacheOf cache =
      if cache < w.caches.length then put key fingerprint (w.cacheOf cache)
      else w.cacheOf cache := by
  rw [World.remember, World.cacheOf, List.getD_eq_getElem?_getD, List.getElem?_set_self']
  split_ifs with hlength
  · rw [List.getElem?_eq_getElem hlength]
    rfl
  · rw [List.getElem?_eq_none (by omega)]
    simp [World.cacheOf, List.getD_eq_getElem?_getD, List.getElem?_eq_none (not_lt.mp hlength)]

/-- To cache what an endpoint presents changes no fingerprint. -/
theorem fingerprint_remember (hcached : ((w.cacheOf cache).lookup key).getD "" = "")
    (other : String) :
    (w.remember cache key (w.presents key)).fingerprint cache other =
      w.fingerprint cache other := by
  have hpresents : (w.remember cache key (w.presents key)).presents = w.presents := rfl
  rw [World.fingerprint, World.fingerprint, cacheOf_remember, hpresents]
  by_cases hlength : cache < w.caches.length
  · rw [if_pos hlength]
    by_cases hsame : other = key
    · subst hsame
      by_cases hempty : w.presents other = "" <;> simp [hempty, hcached]
    · rw [lookup_put_of_ne hsame]
  · rw [if_neg hlength]

/-- A reachable endpoint has a fingerprint, and to look for it changes none. -/
theorem ensureFingerprint_answered (cache : ℕ) {source : Js} {u : Endpoint}
    (hu : endpointOf url source = some u) (hport : u.port ≠ "")
    (hpresents : w.presents u.key ≠ "") :
    ∃ caches, ensureFingerprint url w .answered cache source =
        ({ w with caches }, w.fingerprint cache u.key) ∧
      ∀ key, World.fingerprint { w with caches } cache key = w.fingerprint cache key := by
  have hget : getFingerprint w .answered u = w.presents u.key := by simp [getFingerprint, hport]
  simp only [ensureFingerprint, hu, hget, World.fingerprint]
  by_cases hcached : ((w.cacheOf cache).lookup u.key).getD "" = ""
  · use (w.remember cache u.key (w.presents u.key)).caches
    simp only [hcached, ne_eq, not_true_eq_false, if_false, hpresents, not_false_eq_true, if_true]
    exact ⟨rfl, fingerprint_remember hcached⟩
  · use w.caches
    simp [hcached]

theorem fingerprint_ne_empty (cache : ℕ) (hpresents : w.presents key ≠ "") :
    w.fingerprint cache key ≠ "" := by
  rw [World.fingerprint]
  split_ifs with hcached
  · exact hcached
  · exact hpresents

end Fingerprints

/-! ## The loops -/

section Loops

/-- The next step of a run that nothing disturbs. -/
def alone (mtx : MediaMtx) (url : String → Option Endpoint) (s : World × Run) : World × Run :=
  s.1.step mtx url .answered s.2

/-- Some steps lead from one state to the other. -/
def Leads (mtx : MediaMtx) (url : String → Option Endpoint) (s s' : World × Run) : Prop :=
  ∃ n, (alone mtx url)^[n] s = s'

variable {mtx : MediaMtx} {url : String → Option Endpoint} {w w' w'' : World} {run : Run}
  {field : String × Js} {rest : List (String × Js)}

theorem Leads.refl (s : World × Run) : Leads mtx url s s := ⟨0, rfl⟩

theorem Leads.head {s s' : World × Run} (hrest : Leads mtx url (alone mtx url s) s') :
    Leads mtx url s s' := by
  obtain ⟨n, hn⟩ := hrest
  exact ⟨n + 1, hn⟩

theorem Leads.trans {s s' s'' : World × Run} (hfirst : Leads mtx url s s')
    (hsecond : Leads mtx url s' s'') : Leads mtx url s s'' := by
  obtain ⟨m, rfl⟩ := hfirst
  obtain ⟨n, rfl⟩ := hsecond
  exact ⟨n + m, Function.iterate_add_apply _ n m s⟩

/-- What a run makes of an entry of its snapshot. -/
def Settled (url : String → Option Endpoint) (run : Run) (w w' : World) (field : String × Js) :
    Prop :=
  if sameSource (run.current.lookup field.1) field.2 then w'.paths field.1 = w.paths field.1
  else ∃ source u, field.2 = .str source ∧ endpointOf url field.2 = some u ∧
    w'.paths field.1 = some ⟨source, w.fingerprint run.cache u.key, false⟩

/-- The calls that were made since. -/
def Calls (P : Request → Prop) (w w' : World) : Prop :=
  ∃ calls, w'.log = calls ++ w.log ∧ ∀ call ∈ calls, P call.request

/-- Every call that was made since has succeeded. -/
def Succeeded (w w' : World) : Prop :=
  ∀ calls, w'.log = calls ++ w.log → ∀ call ∈ calls, call.success

/-- What a run does for the entries of its snapshot. -/
structure Added (url : String → Option Endpoint) (run : Run) (rest : List (String × Js))
    (w w' : World) : Prop where
  presents : w'.presents = w.presents
  fingerprint : ∀ key, w'.fingerprint run.cache key = w.fingerprint run.cache key
  others : ∀ name, name ∉ keys rest → w'.paths name = w.paths name
  calls : Calls (fun request => ∃ field ∈ rest, request.name = field.1 ∧
    ¬ sameSource (run.current.lookup field.1) field.2) w w'
  settled : Succeeded w w' → ∀ field ∈ rest, Settled url run w w' field

theorem Calls.refl {P : Request → Prop} (w : World) : Calls P w w :=
  ⟨[], rfl, fun _ hcall => absurd hcall List.not_mem_nil⟩

theorem Calls.trans {P : Request → Prop} (hfirst : Calls P w w') (hsecond : Calls P w' w'') :
    Calls P w w'' := by
  obtain ⟨before, hbefore, hP⟩ := hfirst
  obtain ⟨after, hafter, hP'⟩ := hsecond
  use after ++ before
  constructor
  · rw [hafter, hbefore, List.append_assoc]
  · intro call hcall
    exact (List.mem_append.mp hcall).elim (hP' call) (hP call)

theorem Calls.mono {P Q : Request → Prop} (hcalls : Calls P w w') (hPQ : ∀ r, P r → Q r) :
    Calls Q w w' := by
  obtain ⟨calls, hlog, hP⟩ := hcalls
  exact ⟨calls, hlog, fun call hcall => hPQ _ (hP call hcall)⟩

theorem Succeeded.first {P : Request → Prop} (hsuccess : Succeeded w w'')
    (hsecond : Calls P w' w'') : Succeeded w w' := by
  intro calls hcalls call hcall
  obtain ⟨after, hafter, -⟩ := hsecond
  apply hsuccess (after ++ calls)
  · rw [hafter, hcalls, List.append_assoc]
  · exact List.mem_append_right _ hcall

theorem Succeeded.second {P : Request → Prop} (hsuccess : Succeeded w w'')
    (hfirst : Calls P w w') : Succeeded w' w'' := by
  intro calls hcalls call hcall
  obtain ⟨before, hbefore, -⟩ := hfirst
  apply hsuccess (calls ++ before)
  · rw [hcalls, hbefore, List.append_assoc]
  · exact List.mem_append_left _ hcall

theorem Added.cons (hnodup : field.1 ∉ keys rest) (hfirst : Added url run [field] w w')
    (hrest : Added url run rest w' w'') : Added url run (field :: rest) w w'' where
  presents := hrest.presents.trans hfirst.presents
  fingerprint key := (hrest.fingerprint key).trans (hfirst.fingerprint key)
  others name hname := by
    rw [keys_cons, List.mem_cons, not_or] at hname
    rw [hrest.others name hname.2, hfirst.others name (by simpa [keys] using hname.1)]
  calls := by
    apply Calls.trans (hfirst.calls.mono _) (hrest.calls.mono _)
    · rintro request ⟨other, hother, hname⟩
      exact ⟨other, List.mem_cons.mpr (Or.inl (List.mem_singleton.mp hother)), hname⟩
    · rintro request ⟨other, hother, hname⟩
      exact ⟨other, List.mem_cons_of_mem _ hother, hname⟩
  settled hsuccess := by
    have hown := hfirst.settled (hsuccess.first hrest.calls) field (by simp)
    have hlater := hrest.settled (hsuccess.second hfirst.calls)
    intro other hother
    rcases List.mem_cons.mp hother with rfl | hother
    · rw [Settled, hrest.others _ hnodup]
      exact hown
    · have hne : other.1 ≠ field.1 := fun h =>
        hnodup (h ▸ mem_keys_iff.mpr ⟨other.2, hother⟩)
      have hpaths := hfirst.others other.1 (by simpa [keys] using hne)
      have hsettled := hlater other hother
      simp only [Settled, hpaths, hfirst.fingerprint] at hsettled
      exact hsettled

/-- The URL of a name leads to the path of that name. -/
def Plain (mtx : MediaMtx) (name : String) : Prop :=
  mtx.target name = some name ∧ unescaped name = false

/-- The endpoint of a source answers. -/
def Reachable (url : String → Option Endpoint) (w : World) (source : Js) : Prop :=
  ∃ u, endpointOf url source = some u ∧ u.port ≠ "" ∧ w.presents u.key ≠ ""

theorem calls_execute {P : Request → Prop} {request : Request} (hrequest : P request) :
    Calls P w (w.execute mtx request) :=
  ⟨[⟨request, (mtx.execute w.paths request).1, w.wanted⟩], rfl, by simpa using hrequest⟩

theorem success_of_execute {request : Request} (hsuccess : Succeeded w (w.execute mtx request)) :
    (mtx.execute w.paths request).1 :=
  hsuccess [⟨request, (mtx.execute w.paths request).1, w.wanted⟩] rfl _ List.mem_cons_self

section Post

variable {verb : Verb} {name : String} {source : Js} {fingerprint : String}

theorem paths_post_other (hplain : Plain mtx name) {other : String} (hne : other ≠ name) :
    (w.execute mtx (.post verb name source fingerprint)).paths other = w.paths other := by
  simp only [World.execute, MediaMtx.execute, hplain.1]
  cases source with
  | str source =>
      dsimp only
      split_ifs
      · rfl
      · exact Function.update_of_ne hne _ _
  | _ => rfl

theorem paths_post_self (hplain : Plain mtx name)
    (hsuccess : (mtx.execute w.paths (.post verb name source fingerprint)).1) :
    ∃ text, source = .str text ∧ (w.execute mtx (.post verb name source fingerprint)).paths name =
      some ⟨text, fingerprint, false⟩ := by
  simp only [World.execute, MediaMtx.execute, hplain.1] at hsuccess ⊢
  cases source with
  | str source =>
      use source, rfl
      dsimp only at hsuccess ⊢
      split_ifs at hsuccess ⊢
      exact Function.update_self _ _ _
  | _ => cases hsuccess

end Post

theorem paths_delete {name : String} (hplain : Plain mtx name) (other : String) :
    (w.execute mtx (.delete name)).paths other = if other = name then none else w.paths other := by
  simp only [World.execute, MediaMtx.execute, hplain.1]
  by_cases hsome : (w.paths name).isSome
  · rw [if_pos hsome]
    exact Function.update_apply _ _ _ _
  · rw [if_neg hsome]
    by_cases hsame : other = name
    · subst hsame
      rw [if_pos rfl]
      exact Option.not_isSome_iff_eq_none.mp hsome
    · rw [if_neg hsame]

/-- A round of the loop that adds. -/
theorem leads_round (run : Run) (rest : List (String × Js)) (hplain : Plain mtx field.1)
    (hreachable : Reachable url w field.2) :
    ∃ w', Leads mtx url (w, { run with phase := .adding (field :: rest) })
      (w', { run with phase := .adding rest }) ∧ Added url run [field] w w' := by
  by_cases hsame : sameSource (run.current.lookup field.1) field.2
  · use w
    constructor
    · apply Leads.head
      simp only [alone, World.step, hsame, if_true]
      exact Leads.refl _
    · exact ⟨rfl, fun _ => rfl, fun _ _ => rfl, Calls.refl w, fun _ other hother => by
        obtain rfl := List.mem_singleton.mp hother
        rw [Settled, if_pos hsame]⟩
  · obtain ⟨u, hu, hport, hpresents⟩ := hreachable
    obtain ⟨caches, hensure, hfingerprint⟩ :=
      ensureFingerprint_answered run.cache hu hport hpresents
    have hfp := fingerprint_ne_empty run.cache hpresents
    generalize hverb : (if (run.current.lookup field.1).isNone then Verb.add else Verb.replace) =
      verb
    use World.execute mtx (.post verb field.1 field.2 (w.fingerprint run.cache u.key))
      { w with caches }
    constructor
    · apply Leads.head
      simp only [alone, World.step, hsame, hensure, hfp, if_false, Bool.false_eq_true]
      apply Leads.head
      simp only [alone, World.step, hplain.2, hverb, World.send, if_false, Bool.false_eq_true]
      exact Leads.refl _
    · constructor
      · rfl
      · exact hfingerprint
      · intro name hname
        exact paths_post_other hplain (by simpa [keys] using hname)
      · exact calls_execute (w := { w with caches }) (P := fun request => ∃ other ∈ [field],
          request.name = other.1 ∧ ¬ sameSource (run.current.lookup other.1) other.2)
          ⟨field, List.mem_singleton_self field, rfl, hsame⟩
      · intro hsuccess other hother
        obtain rfl := List.mem_singleton.mp hother
        obtain ⟨source, hsource, hpath⟩ := paths_post_self hplain
          (success_of_execute (w := { w with caches }) hsuccess)
        rw [Settled, if_neg hsame]
        exact ⟨source, u, hsource, hu, hpath⟩

/-- The loop that adds. -/
theorem leads_adding (w : World) (run : Run) (hnodup : (keys rest).Nodup)
    (hplain : ∀ field ∈ rest, Plain mtx field.1)
    (hreachable : ∀ field ∈ rest, Reachable url w field.2) :
    ∃ w', Leads mtx url (w, { run with phase := .adding rest })
      (w', { run with phase := .adding [] }) ∧ Added url run rest w w' := by
  induction rest generalizing w with
  | nil =>
      use w, Leads.refl _
      exact ⟨rfl, fun _ => rfl, fun _ _ => rfl, Calls.refl w, fun _ field hfield => by cases hfield⟩
  | cons field rest ih =>
      obtain ⟨hnot, hnodup⟩ := List.nodup_cons.mp hnodup
      obtain ⟨w', hround, hfirst⟩ := leads_round run rest (hplain field (by simp))
        (hreachable field (by simp))
      have hreachable' : ∀ other ∈ rest, Reachable url w' other.2 := by
        intro other hother
        rw [Reachable, hfirst.presents]
        exact hreachable other (by simp [hother])
      obtain ⟨w'', hloop, hrest⟩ :=
        ih w' hnodup (fun other hother => hplain other (by simp [hother]))
        hreachable'
      exact ⟨w'', hround.trans hloop, hfirst.cons hnot hrest⟩

/-- The loop that deletes. -/
theorem leads_deleting (url : String → Option Endpoint) (w : World) (run : Run)
    {names : List String} (hplain : ∀ name ∈ names, Plain mtx name) :
    ∃ w', Leads mtx url (w, { run with phase := .deleting names })
      (w', { run with phase := .deleting [] }) ∧
      (∀ name, w'.paths name = if name ∈ names then none else w.paths name) ∧
      Calls (fun request => request.name ∈ names) w w' := by
  induction names generalizing w with
  | nil => exact ⟨w, Leads.refl _, fun _ => by simp, Calls.refl w⟩
  | cons name names ih =>
      have hname := hplain name (by simp)
      obtain ⟨w', hloop, hpaths, hcalls⟩ := ih (w.execute mtx (.delete name))
        fun other hother => hplain other (by simp [hother])
      use w'
      constructor
      · apply Leads.head
        simp only [alone, World.step, hname.2, World.send, if_false, Bool.false_eq_true]
        exact hloop
      constructor
      · intro other
        rw [hpaths]
        by_cases hlater : other ∈ names
        · simp [hlater]
        · simp [hlater, paths_delete hname]
      · have hcall : Calls (fun request => request.name ∈ name :: names) w
            (w.execute mtx (.delete name)) := calls_execute (by simp [Request.name])
        exact hcall.trans (hcalls.mono fun request h => by simp [h])

end Loops

/-! ## A whole run -/

/-- The name was seen within the window, and this is its entry. -/
def Wants (w : World) (name : String) (entry : Entry) : Prop :=
  w.desired.lookup name = some entry ∧ entry.fresh w.now

/-- The path has the source that is wanted. -/
def HasSource (w : World) (name : String) : Prop :=
  ∃ path entry, w.paths name = some path ∧ Wants w name entry ∧ entry.source = .str path.source

/-- The fingerprint in the cache of the flow, or what the endpoint presents. -/
def cachedOrPresented (w : World) (u : Endpoint) : String :=
  let cached := (((w.fingerprintCache.map w.cacheOf).getD []).lookup u.key).getD ""
  if cached ≠ "" then cached else w.presents u.key

/-- What a run makes of the paths. -/
structure Reconciled (url : String → Option Endpoint) (w w' : World) : Prop where
  kept : ∀ name, HasSource w name → w'.paths name = w.paths name
  written : ∀ name entry, Wants w name entry → ¬ HasSource w name →
    ∃ source u, entry.source = .str source ∧ endpointOf url entry.source = some u ∧
      w'.paths name = some ⟨source, cachedOrPresented w u, false⟩
  deleted : ∀ name, isDs name → (¬ ∃ entry, Wants w name entry) → w'.paths name = none
  others : ∀ name, ¬ isDs name → w'.paths name = w.paths name
  calls : Calls (fun request => isDs request.name ∧ ¬ HasSource w request.name) w w'

section Whole

variable {mtx : MediaMtx} {url : String → Option Endpoint} {w : World}

theorem sameSource_iff {current : Option String} {source : Js} (htruthy : source.truthy) :
    sameSource current source ↔ ∃ text, current = some text ∧ source = .str text := by
  cases source with
  | undefined => cases htruthy
  | str text =>
      cases current with
      | none => simp [sameSource]
      | some current =>
          simp only [sameSource, beq_iff_eq, Option.some.injEq, Js.str.injEq]
          constructor
          · exact fun h => ⟨current, rfl, h.symm⟩
          · rintro ⟨_, rfl, rfl⟩
            rfl
  | _ => cases current <;> simp [sameSource]

theorem fingerprint_snapshot (w : World) (u : Endpoint) :
    w.snapshot.1.fingerprint w.snapshot.2.cache u.key = cachedOrPresented w u := by
  have hcache : w.snapshot.1.cacheOf w.snapshot.2.cache =
      (w.fingerprintCache.map w.cacheOf).getD [] := by
    rcases hsome : w.fingerprintCache with _ | cache <;>
      simp [World.snapshot, World.cacheOf, hsome]
  rw [World.fingerprint, cachedOrPresented, hcache]
  rfl

theorem mem_snapshot_iff (hstreams : Streams w.desired) {name : String} {source : Js} :
    (name, source) ∈ w.snapshot.2.desired ↔
      ∃ entry, Wants w name entry ∧ entry.source = source := by
  simp only [World.snapshot, List.mem_map, List.mem_filter, Prod.mk.injEq]
  constructor
  · rintro ⟨field, ⟨hfield, hfresh⟩, rfl, rfl⟩
    exact ⟨field.2, ⟨lookup_of_mem hstreams.nodup hfield, hfresh⟩, rfl⟩
  · rintro ⟨entry, ⟨hentry, hfresh⟩, rfl⟩
    exact ⟨(name, entry), ⟨mem_of_lookup hentry, hfresh⟩, rfl, rfl⟩

theorem mem_keys_snapshot_iff (hstreams : Streams w.desired) {name : String} :
    name ∈ keys w.snapshot.2.desired ↔ ∃ entry, Wants w name entry := by
  rw [mem_keys_iff]
  constructor
  · rintro ⟨source, hmem⟩
    obtain ⟨entry, hentry, -⟩ := (mem_snapshot_iff hstreams).mp hmem
    exact ⟨entry, hentry⟩
  · rintro ⟨entry, hentry⟩
    exact ⟨entry.source, (mem_snapshot_iff hstreams).mpr ⟨entry, hentry, rfl⟩⟩

theorem nodup_keys_snapshot (hstreams : Streams w.desired) :
    (keys w.snapshot.2.desired).Nodup := by
  have hkeys : keys w.snapshot.2.desired =
      keys (w.desired.filter fun field => field.2.fresh w.now) := by
    simp only [World.snapshot, keys, List.map_map]
    rfl
  rw [hkeys]
  exact (hstreams.filter _).nodup

/-- The run with its listing. -/
def listed (mtx : MediaMtx) (w : World) : Run :=
  { w.snapshot.2 with current := currentOf (mtx.firstPage w.paths) }

theorem mem_orphans_iff
    (hpage : ∀ name path, (name, path) ∈ mtx.firstPage w.paths ↔ w.paths name = some path)
    (hstreams : Streams w.desired) {name : String} :
    name ∈ (listed mtx w).orphans ↔
      isDs name ∧ (w.paths name).isSome ∧ ¬ ∃ entry, Wants w name entry := by
  have hkeys : name ∈ keys (mtx.firstPage w.paths) ↔ (w.paths name).isSome := by
    rw [mem_keys_iff, Option.isSome_iff_exists]
    simp only [hpage]
  rw [Run.orphans, List.mem_filter, listed, keys_currentOf, hkeys, ← mem_keys_snapshot_iff hstreams]
  simp [and_assoc]

theorem sameSource_listed_iff
    (hpage : ∀ name path, (name, path) ∈ mtx.firstPage w.paths ↔ w.paths name = some path)
    (hstreams : Streams w.desired) {name : String} {entry : Entry} (hwants : Wants w name entry) :
    sameSource ((listed mtx w).current.lookup name) entry.source ↔ HasSource w name := by
  obtain ⟨hds, htruthy⟩ := hstreams.isStream (name, entry) (mem_of_lookup hwants.1)
  have hlookup : (listed mtx w).current.lookup name = (w.paths name).map Path.source :=
    lookup_currentOf hpage hds
  rw [sameSource_iff htruthy, hlookup]
  constructor
  · rintro ⟨text, htext, hsource⟩
    obtain ⟨path, hpath, rfl⟩ := Option.map_eq_some_iff.mp htext
    exact ⟨path, entry, hpath, hwants, hsource⟩
  · rintro ⟨path, entry', hpath, hwants', hsource⟩
    rw [Option.some.inj (hwants.1.symm.trans hwants'.1), hpath]
    exact ⟨path.source, rfl, hsource⟩

/-- The steps of a whole run. -/
theorem leads_finished
    (hpage : ∀ name path, (name, path) ∈ mtx.firstPage w.paths ↔ w.paths name = some path)
    (hstreams : Streams w.desired)
    (hplain : ∀ name, isDs name → (w.paths name).isSome ∨ (∃ entry, Wants w name entry) →
      Plain mtx name)
    (hreachable : ∀ name entry, Wants w name entry → Reachable url w entry.source) :
    ∃ (w₁ w₂ : World) (run : Run), Leads mtx url w.snapshot (w₂, { run with phase := .finished }) ∧
      Added url (listed mtx w) w.snapshot.2.desired w.snapshot.1 w₁ ∧
      (∀ name, w₂.paths name = if name ∈ (listed mtx w).orphans then none else w₁.paths name) ∧
      Calls (fun request => request.name ∈ (listed mtx w).orphans) w₁ w₂ := by
  have hplainWanted : ∀ field ∈ w.snapshot.2.desired, Plain mtx field.1 := by
    intro field hfield
    obtain ⟨entry, hentry, -⟩ := (mem_snapshot_iff hstreams).mp hfield
    exact hplain _ (hstreams.isStream _ (mem_of_lookup hentry.1)).1 (Or.inr ⟨entry, hentry⟩)
  have hreachableWanted : ∀ field ∈ w.snapshot.2.desired,
      Reachable url w.snapshot.1 field.2 := by
    intro field hfield
    obtain ⟨entry, hentry, hsource⟩ := (mem_snapshot_iff hstreams).mp hfield
    rw [← hsource]
    exact hreachable _ entry hentry
  have hplainOrphans : ∀ name ∈ (listed mtx w).orphans, Plain mtx name := by
    intro name hname
    obtain ⟨hds, hpath, -⟩ := (mem_orphans_iff hpage hstreams).mp hname
    exact hplain name hds (Or.inl hpath)
  obtain ⟨w₁, hadding, hadded⟩ := leads_adding w.snapshot.1 (listed mtx w)
    (nodup_keys_snapshot hstreams) hplainWanted hreachableWanted
  obtain ⟨w₂, hdeleting, hpaths, hcalls⟩ := leads_deleting url w₁ (listed mtx w) hplainOrphans
  use w₁, w₂.pruneCache url (listed mtx w), listed mtx w
  constructor
  · apply Leads.head
    apply hadding.trans
    apply Leads.head
    apply hdeleting.trans
    apply Leads.head
    exact Leads.refl _
  · exact ⟨hadded, hpaths, hcalls⟩

section Reconciled

variable {w₁ w₂ : World}

/-- A wanted path that has its source stays; any other is written. -/
theorem settled_wanted
    (hpage : ∀ name path, (name, path) ∈ mtx.firstPage w.paths ↔ w.paths name = some path)
    (hstreams : Streams w.desired) {name : String} {entry : Entry} (hwants : Wants w name entry)
    (hsettled : Settled url (listed mtx w) w.snapshot.1 w₁ (name, entry.source)) :
    (HasSource w name → w₁.paths name = w.paths name) ∧
      (¬ HasSource w name → ∃ source u, entry.source = .str source ∧
        endpointOf url entry.source = some u ∧
        w₁.paths name = some ⟨source, cachedOrPresented w u, false⟩) := by
  have hsame := sameSource_listed_iff hpage hstreams hwants
  rw [Settled] at hsettled
  constructor
  · intro hhas
    rw [if_pos (hsame.mpr hhas)] at hsettled
    exact hsettled
  · intro hhas
    rw [if_neg fun h => hhas (hsame.mp h)] at hsettled
    obtain ⟨source, u, hsource, hu, hpath⟩ := hsettled
    use source, u, hsource, hu
    rw [← fingerprint_snapshot w u]
    exact hpath

theorem reconciled_of_loops
    (hpage : ∀ name path, (name, path) ∈ mtx.firstPage w.paths ↔ w.paths name = some path)
    (hstreams : Streams w.desired)
    (hadded : Added url (listed mtx w) w.snapshot.2.desired w.snapshot.1 w₁)
    (hpaths : ∀ name, w₂.paths name =
      if name ∈ (listed mtx w).orphans then none else w₁.paths name)
    (hdeleted : Calls (fun request => request.name ∈ (listed mtx w).orphans) w₁ w₂)
    (hsuccess : Succeeded w w₂) : Reconciled url w w₂ := by
  have horphan : ∀ name, name ∈ (listed mtx w).orphans ↔ _ :=
    fun name => mem_orphans_iff hpage hstreams
  have hwanted : ∀ name entry, Wants w name entry → w₂.paths name = w₁.paths name ∧
      (HasSource w name → w₁.paths name = w.paths name) ∧
      (¬ HasSource w name → ∃ source u, entry.source = .str source ∧
        endpointOf url entry.source = some u ∧
        w₁.paths name = some ⟨source, cachedOrPresented w u, false⟩) := by
    intro name entry hentry
    constructor
    · rw [hpaths, if_neg]
      exact fun h => ((horphan name).mp h).2.2 ⟨entry, hentry⟩
    · apply settled_wanted hpage hstreams hentry
      exact hadded.settled (hsuccess.first hdeleted) _
        ((mem_snapshot_iff hstreams).mpr ⟨entry, hentry, rfl⟩)
  have hunwanted : ∀ name, (¬ ∃ entry, Wants w name entry) → w₁.paths name = w.paths name :=
    fun name hnot => hadded.others name fun h => hnot ((mem_keys_snapshot_iff hstreams).mp h)
  have hisDs : ∀ name entry, Wants w name entry → isDs name :=
    fun name entry hentry => (hstreams.isStream _ (mem_of_lookup hentry.1)).1
  constructor
  · intro name hhas
    obtain ⟨path, entry, hpath, hentry, hsource⟩ := id hhas
    obtain ⟨hsame, hkept, -⟩ := hwanted name entry hentry
    rw [hsame, hkept hhas]
  · intro name entry hentry hhas
    obtain ⟨hsame, -, hwritten⟩ := hwanted name entry hentry
    rw [hsame]
    exact hwritten hhas
  · intro name hds hnot
    rw [hpaths, hunwanted name hnot]
    split_ifs with hlisted
    · rfl
    · by_contra hsome
      exact hlisted ((horphan name).mpr ⟨hds, Option.isSome_iff_ne_none.mpr hsome, hnot⟩)
  · intro name hds
    have hnot : ¬ ∃ entry, Wants w name entry :=
      fun ⟨entry, hentry⟩ => hds (hisDs name entry hentry)
    rw [hpaths, hunwanted name hnot, if_neg fun h => hds ((horphan name).mp h).1]
  · have hposted : Calls (fun request => isDs request.name ∧ ¬ HasSource w request.name) w w₁ := by
      obtain ⟨calls, hlog, hcalls⟩ := hadded.calls
      use calls, hlog
      intro call hcall
      obtain ⟨⟨name, source⟩, hfield, hname, hdiffers⟩ := hcalls call hcall
      obtain ⟨entry, hentry, rfl⟩ := (mem_snapshot_iff hstreams).mp hfield
      rw [hname]
      use hisDs name entry hentry
      exact fun hhas => hdiffers ((sameSource_listed_iff hpage hstreams hentry).mpr hhas)
    apply hposted.trans (hdeleted.mono _)
    intro request hrequest
    obtain ⟨hds, -, hnot⟩ := (horphan request.name).mp hrequest
    use hds
    rintro ⟨path, entry, -, hentry, -⟩
    exact hnot ⟨entry, hentry⟩

end Reconciled

/-- **A run converges.**  Alone, with all paths on the first page of the listing, with names that
stand in a URL as they are and endpoints that answer on a port that is given, a run whose calls
succeed leaves the wanted paths with their sources and touches no others. -/
theorem reconcile_converges (haccumulated : Accumulated w)
    (hpage : ∀ name path, (name, path) ∈ mtx.firstPage w.paths ↔ w.paths name = some path)
    (hplain : ∀ name, isDs name → (w.paths name).isSome ∨ (∃ entry, Wants w name entry) →
      Plain mtx name)
    (hreachable : ∀ name entry, Wants w name entry → Reachable url w entry.source) :
    ∃ n, ((alone mtx url)^[n] w.snapshot).2.isFinished ∧
      (Succeeded w ((alone mtx url)^[n] w.snapshot).1 →
        Reconciled url w ((alone mtx url)^[n] w.snapshot).1) := by
  have hstreams := streams_of_accumulated haccumulated
  obtain ⟨w₁, w₂, run, ⟨n, hn⟩, hadded, hpaths, hdeleted⟩ :=
    leads_finished hpage hstreams hplain hreachable
  use n
  rw [hn]
  exact ⟨rfl, reconciled_of_loops hpage hstreams hadded hpaths hdeleted⟩

end Whole

/-! ## A certificate that rotates -/

def relaySource : String := "rtsps://relay:322/live"

def relay : Endpoint := ⟨"relay", "322"⟩

def relayUrl (source : String) : Option Endpoint :=
  if source = relaySource then some relay else none

/-- A drone with one active sensor. -/
def relayPayload : Js :=
  .arr [.obj [("id", .str "drone"), ("latitude", .num "1"), ("longitude", .num "2"),
    ("sensors", .arr [.obj [("id", .str "a"), ("rtsp_url", .str relaySource)]])]]

/-- MediaMTX with no paths but `ds/a` and `ds/b`. -/
def relayMtx : MediaMtx where
  firstPage paths :=
    ["ds/a", "ds/b"].filterMap fun name => (paths name).map fun path => (name, path)
  target := some
  accepts _ _ := true

/-- The drone was just seen, and its relay presents `new`. -/
def relayWorld (paths : Paths) : World :=
  World.buildCot (.str "") relayPayload
    { dsDesired := none, caches := [], fingerprintCache := none, paths
      presents := fun _ => "new", now := 0, late := [], log := [] }

/-- The path of the sensor was made when the relay presented `old`. -/
def rotatedWorld : World :=
  relayWorld fun name => if name = "ds/a" then some ⟨relaySource, "old", false⟩ else none

/-- A path that no drone is wanted for. -/
def orphanedWorld : World :=
  relayWorld fun name => if name = "ds/b" then some ⟨relaySource, "old", false⟩ else none

theorem desired_relayWorld (paths : Paths) :
    (relayWorld paths).desired = [("ds/a", ⟨.str relaySource, 0⟩)] := by
  rfl

theorem accumulated_relayWorld (paths : Paths) : Accumulated (relayWorld paths) :=
  .buildCot _ _ (.start rfl)

theorem wants_relayWorld {paths : Paths} {name : String} {entry : Entry}
    (hwants : Wants (relayWorld paths) name entry) :
    name = "ds/a" ∧ entry = ⟨.str relaySource, 0⟩ := by
  have hmem := mem_of_lookup hwants.1
  rw [desired_relayWorld, List.mem_singleton] at hmem
  exact ⟨congrArg Prod.fst hmem, congrArg Prod.snd hmem⟩

theorem reachable_relayWorld {paths : Paths} {name : String} {entry : Entry}
    (hwants : Wants (relayWorld paths) name entry) :
    Reachable relayUrl (relayWorld paths) entry.source := by
  obtain ⟨-, rfl⟩ := wants_relayWorld hwants
  have hpresents : (relayWorld paths).presents relay.key = "new" := rfl
  use relay, rfl, by decide
  rw [hpresents]
  decide

/-- A certificate that rotates under a source that stays is not noticed. -/
theorem rotated_fingerprint_left :
    let out := ((alone relayMtx relayUrl)^[4] rotatedWorld.snapshot)
    out.2.isFinished ∧ Succeeded rotatedWorld out.1 ∧
      Wants rotatedWorld "ds/a" ⟨.str relaySource, 0⟩ ∧
      Reachable relayUrl rotatedWorld (.str relaySource) ∧
      out.1.paths "ds/a" = some ⟨relaySource, "old", false⟩ ∧
      rotatedWorld.presents relay.key ≠ "old" := by
  have hwants : Wants rotatedWorld "ds/a" ⟨.str relaySource, 0⟩ := ⟨rfl, rfl⟩
  refine ⟨by decide +kernel, ?_, hwants, reachable_relayWorld hwants, by decide +kernel, by decide⟩
  intro calls hcalls call hcall
  have hlog : ((alone relayMtx relayUrl)^[4] rotatedWorld.snapshot).1.log = [] :=
    List.length_eq_zero_iff.mp (by decide +kernel)
  obtain ⟨rfl, -⟩ := List.append_eq_nil_iff.mp (hcalls.symm.trans hlog)
  cases hcall

/-- The relay is asked for its fingerprint, and the orphan goes. -/
theorem orphaned_world_converges :
    ∃ n, ((alone relayMtx relayUrl)^[n] orphanedWorld.snapshot).2.isFinished ∧
      (Succeeded orphanedWorld ((alone relayMtx relayUrl)^[n] orphanedWorld.snapshot).1 →
        Reconciled relayUrl orphanedWorld
          ((alone relayMtx relayUrl)^[n] orphanedWorld.snapshot).1) := by
  have hpaths : ∀ name, orphanedWorld.paths name =
      if name = "ds/b" then some ⟨relaySource, "old", false⟩ else none :=
    fun _ => rfl
  have haccumulated : Accumulated orphanedWorld := accumulated_relayWorld _
  apply reconcile_converges haccumulated
  · intro name path
    have hpage : relayMtx.firstPage orphanedWorld.paths = [("ds/b", ⟨relaySource, "old", false⟩)] :=
      by decide +kernel
    rw [hpage, hpaths, List.mem_singleton]
    split_ifs with hname
    · simp [hname, eq_comm]
    · simp [hname]
  · intro name _ hname
    use rfl
    rcases hname with hpath | ⟨entry, hentry⟩
    · rw [hpaths] at hpath
      split_ifs at hpath with hb
      · rw [hb]
        decide
      · cases hpath
    · rw [(wants_relayWorld hentry).1]
      decide
  · exact fun name entry hentry => reachable_relayWorld hentry

end FastTAK.NodeRed.DroneSense
