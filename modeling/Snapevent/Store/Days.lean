import Snapevent.Store.Jsonl

/-!
# A stream over days

One stream is appended to over any number of days, and its writer is closed and opened again at any
points.  Its files come back as exactly the envelopes that went in; a line of a newer version
never does.
-/

namespace Snapevent

/-- What happens to the writer of a stream. -/
inductive StreamAction
  | append (today : Date) (env : Envelope)
  | reopen

/-- The day and the envelope of an append. -/
def StreamAction.record : StreamAction → Option (Date × Envelope)
  | .append today env => some (today, env)
  | .reopen => none

def streamStep (serde : Serde) (s : JsonlWriter × Directory) :
    StreamAction → JsonlWriter × Directory
  | .append today env => s.1.append today (serde.lineBytes env) s.2
  | .reopen => (.new, s.2)

/-- The writer and the files after a run of the stream. -/
def streamRun (serde : Serde) (actions : List StreamAction) : JsonlWriter × Directory :=
  actions.foldl (streamStep serde) (.new, [])

/-! ## File names -/

theorem dayFile_lt {a b : Date} (ha : a.FourDigit) (hb : b.FourDigit) (h : a < b) :
    dayFile a < dayFile b := by
  rw [String.lt_iff, dayFile, dayFile, String.toList_append, String.toList_append]
  exact Date.text_append_lt ha hb h _ _

theorem dayFile_ne {a b : Date} (ha : a.FourDigit) (hb : b.FourDigit) (h : a < b) :
    dayFile a ≠ dayFile b := ne_of_lt (dayFile_lt ha hb h)

/-! ## Files of days -/

/-- The file of a day and its envelopes. -/
def Serde.dayEntry (serde : Serde) (g : Date × List Envelope) : String × List UInt8 :=
  (dayFile g.1, serde.fileBytes g.2)

/-- The files of a stream are those of its days, in order, and the writer has the last one open or
none. -/
structure DayFiles (serde : Serde) (s : JsonlWriter × Directory)
    (groups : List (Date × List Envelope)) : Prop where
  files : s.2 = groups.map serde.dayEntry
  sorted : (groups.map (·.1)).Pairwise (· < ·)
  years : ∀ g ∈ groups, g.1.FourDigit
  opened : s.1 = .new ∨ ∃ day, s.1 = ⟨some day, some (dayFile day)⟩ ∧
    day ∈ groups.map (·.1)

namespace DayFiles

variable {serde : Serde} {s : JsonlWriter × Directory} {groups : List (Date × List Envelope)}
  {today : Date} {env : Envelope}

/-- Whether or not it has to rotate, an append opens the file of the day and writes to it. -/
theorem append_eq (h : DayFiles serde s groups) (today : Date) (env : Envelope) :
    s.1.append today (serde.lineBytes env) s.2 = (⟨some today, some (dayFile today)⟩,
      (s.2.openFile (dayFile today)).write (dayFile today) (serde.fileBytes [env])) := by
  rw [JsonlWriter.append, JsonlWriter.rotateIfNeeded, serde.fileBytes_singleton]
  rcases h.opened with hw | ⟨day, hw, hday⟩
  · rw [hw, if_neg (by simp [JsonlWriter.new])]
  · rw [hw]
    split_ifs with hsame
    · have hday' : day = today := by simpa using hsame
      subst hday'
      have hmem : dayFile day ∈ s.2.map (·.1) := by
        obtain ⟨g, hg, rfl⟩ := List.mem_map.1 hday
        rw [h.files, List.map_map]
        exact List.mem_map.2 ⟨g, hg, rfl⟩
      rw [Directory.openFile, if_pos hmem]
    · rfl

theorem start : DayFiles serde (.new, []) [] where
  files := rfl
  sorted := List.Pairwise.nil
  years := by simp
  opened := Or.inl rfl

theorem dayFile_notMem (h : DayFiles serde s groups) (htoday : today.FourDigit)
    (hlt : ∀ g ∈ groups, g.1 < today) : dayFile today ∉ s.2.map (·.1) := by
  rw [h.files, List.map_map]
  intro hmem
  obtain ⟨g, hg, hname⟩ := List.mem_map.1 hmem
  exact dayFile_ne (h.years g hg) htoday (hlt g hg) hname

theorem append_new (h : DayFiles serde s groups) (htoday : today.FourDigit)
    (hlt : ∀ g ∈ groups, g.1 < today) (env : Envelope) :
    DayFiles serde (streamStep serde s (.append today env)) (groups ++ [(today, [env])]) := by
  have hnew := h.dayFile_notMem htoday hlt
  rw [streamStep, h.append_eq]
  refine ⟨?_, ?_, ?_, Or.inr ⟨today, rfl, by simp⟩⟩
  · dsimp only
    rw [Directory.openFile_of_notMem hnew, Directory.write_append, Directory.write_of_notMem hnew,
      Directory.write_singleton, h.files, List.map_append]
    rfl
  · rw [List.map_append, List.pairwise_append]
    refine ⟨h.sorted, List.pairwise_singleton _ _, ?_⟩
    intro a ha b hb
    obtain ⟨g, hg, rfl⟩ := List.mem_map.1 ha
    rw [List.map_singleton, List.mem_singleton] at hb
    rw [hb]
    exact hlt g hg
  · rw [List.forall_mem_append]
    exact ⟨h.years, by simpa using htoday⟩

theorem append_same {es : List Envelope} (h : DayFiles serde s (groups ++ [(today, es)]))
    (env : Envelope) :
    DayFiles serde (streamStep serde s (.append today env)) (groups ++ [(today, es ++ [env])]) := by
  have htoday : today.FourDigit := h.years (today, es) (by simp)
  have hlt : ∀ g ∈ groups, g.1 < today := by
    have hsorted := h.sorted
    rw [List.map_append, List.pairwise_append] at hsorted
    exact fun g hg => hsorted.2.2 _ (List.mem_map_of_mem hg) _ (by simp)
  have hmem : dayFile today ∈ s.2.map (·.1) := by
    rw [h.files, List.map_map]
    exact List.mem_map.2 ⟨(today, es), by simp, rfl⟩
  have hold : dayFile today ∉ (groups.map serde.dayEntry).map (·.1) := by
    rw [List.map_map]
    intro hold
    obtain ⟨g, hg, hname⟩ := List.mem_map.1 hold
    exact dayFile_ne (h.years g (by simp [hg])) htoday (hlt g hg) hname
  have hentry : Directory.write (dayFile today) (serde.fileBytes [env]) [serde.dayEntry (today, es)] =
      [serde.dayEntry (today, es ++ [env])] := by
    rw [Serde.dayEntry, Directory.write_singleton, ← serde.fileBytes_append]
    rfl
  rw [streamStep, h.append_eq]
  refine ⟨?_, ?_, ?_, Or.inr ⟨today, rfl, by simp⟩⟩
  · dsimp only
    rw [Directory.openFile_of_mem hmem, h.files, List.map_append, Directory.write_append,
      Directory.write_of_notMem hold, List.map_singleton, hentry, List.map_append]
    rfl
  · have hsorted := h.sorted
    rwa [List.map_append] at hsorted ⊢
  · have hyears := h.years
    rw [List.forall_mem_append] at hyears ⊢
    exact ⟨hyears.1, by simpa using htoday⟩

theorem reopen (h : DayFiles serde s groups) : DayFiles serde (streamStep serde s .reopen) groups where
  files := h.files
  sorted := h.sorted
  years := h.years
  opened := Or.inl rfl

/-- One append on the last day or a later one. -/
theorem append (h : DayFiles serde s groups) (htoday : today.FourDigit)
    (hle : ∀ g ∈ groups, g.1 ≤ today) (env : Envelope) :
    ∃ groups', DayFiles serde (streamStep serde s (.append today env)) groups' ∧
      groups'.flatMap (·.2) = groups.flatMap (·.2) ++ [env] ∧
      ∀ g ∈ groups', (∃ g' ∈ groups, g'.1 = g.1) ∨ g.1 = today := by
  by_cases hlt : ∀ g ∈ groups, g.1 < today
  · refine ⟨_, h.append_new htoday hlt env, by simp, ?_⟩
    rw [List.forall_mem_append]
    exact ⟨fun g hg => Or.inl ⟨g, hg, rfl⟩, by simp⟩
  · rcases List.eq_nil_or_concat groups with rfl | ⟨init, ⟨day, es⟩, rfl⟩
    · exact absurd (by simp) hlt
    · rw [List.concat_eq_append] at h hle hlt ⊢
      have hday : day = today := by
        by_contra hne
        apply hlt
        have hlast : day < today :=
          (Date.lt_or_eq_of_le (hle (day, es) (by simp))).resolve_right hne
        have hsorted := h.sorted
        rw [List.map_append, List.pairwise_append] at hsorted
        rw [List.forall_mem_append]
        refine ⟨fun g hg => ?_, by simpa using hlast⟩
        exact Date.lt_trans (hsorted.2.2 _ (List.mem_map_of_mem hg) day (by simp)) hlast
      subst hday
      refine ⟨_, h.append_same env, by simp, ?_⟩
      rw [List.forall_mem_append]
      exact ⟨fun g hg => Or.inl ⟨g, List.mem_append_left _ hg, rfl⟩, by simp⟩

/-- The reader gets what the lines of the days are read as, in order. -/
theorem readItems_eq (h : DayFiles serde s groups)
    (hwritable : ∀ env ∈ groups.flatMap (·.2), serde.Writable env) :
    readItems (s.2.files serde) = groups.flatMap fun g => serde.storedItems 1 g.2 := by
  have hsorted : ((groups.map serde.dayEntry).map fun f =>
      (⟨f.1, serde.fileLines f.2⟩ : CaptureFile)).Pairwise fun a b => a.path ≤ b.path := by
    rw [List.pairwise_map, List.pairwise_map]
    have hdays := h.sorted
    rw [List.pairwise_map] at hdays
    apply hdays.imp_of_mem
    intro g g' hg hg' hlt
    exact le_of_lt (dayFile_lt (h.years g hg) (h.years g' hg') hlt)
  rw [Directory.files, h.files, hsorted.insertionSort_eq, readItems, List.map_map, List.flatMap_map]
  apply List.flatMap_congr
  intro g hg
  apply readEnvelopes_written
  exact fun env henv => hwritable env (List.mem_flatMap.2 ⟨g, hg, henv⟩)

/-- The lines of the days come back as the envelopes exactly when no payload is nested too deep. -/
theorem storedItems_eq_iff (serde : Serde) (groups : List (Date × List Envelope)) :
    (groups.flatMap fun g => serde.storedItems 1 g.2) = (groups.flatMap (·.2)).map .ok ↔
      ∀ env ∈ groups.flatMap (·.2), env.kind.Shallow := by
  induction groups with
  | nil => simp
  | cons g groups ih =>
    rw [List.flatMap_cons, List.flatMap_cons, List.map_append, List.forall_mem_append, ← ih,
      ← @Serde.storedItems_eq_iff serde _ 1]
    constructor
    · intro heq
      exact List.append_inj heq (by rw [Serde.length_storedItems, List.length_map])
    · rintro ⟨hfirst, hrest⟩
      rw [hfirst, hrest]

end DayFiles

/-- The appends of a run. -/
def appended (actions : List StreamAction) : List (Date × Envelope) :=
  actions.filterMap StreamAction.record

/-- A run on days that do not go back leaves the files of its days. -/
theorem dayFiles_streamRun (serde : Serde) {actions : List StreamAction}
    (hdays : ((appended actions).map (·.1)).Pairwise (· ≤ ·))
    (hyears : ∀ r ∈ appended actions, r.1.FourDigit) :
    ∃ groups, DayFiles serde (streamRun serde actions) groups ∧
      groups.flatMap (·.2) = (appended actions).map (·.2) ∧
      ∀ g ∈ groups, ∃ r ∈ appended actions, r.1 = g.1 := by
  induction actions using List.reverseRecOn with
  | nil => exact ⟨[], DayFiles.start, rfl, by simp⟩
  | append_singleton actions action ih =>
    have hrun : streamRun serde (actions ++ [action]) =
        streamStep serde (streamRun serde actions) action := by
      rw [streamRun, List.foldl_append]
      rfl
    cases action with
    | reopen =>
      have hsame : appended (actions ++ [.reopen]) = appended actions := by
        simp [appended, StreamAction.record]
      rw [hsame] at hdays hyears ⊢
      obtain ⟨groups, hfiles, henvs, hmem⟩ := ih hdays hyears
      rw [hrun]
      exact ⟨groups, hfiles.reopen, henvs, hmem⟩
    | append today env =>
      have hsnoc : appended (actions ++ [.append today env]) = appended actions ++ [(today, env)] := by
        simp [appended, StreamAction.record]
      rw [hsnoc] at hdays hyears ⊢
      rw [List.map_append, List.pairwise_append] at hdays
      rw [List.forall_mem_append] at hyears
      obtain ⟨groups, hfiles, henvs, hmem⟩ := ih hdays.1 hyears.1
      have hle : ∀ g ∈ groups, g.1 ≤ today := by
        intro g hg
        obtain ⟨r, hr, hday⟩ := hmem g hg
        rw [← hday]
        exact hdays.2.2 _ (List.mem_map_of_mem hr) today (by simp)
      obtain ⟨groups', hfiles', henvs', hmem'⟩ := hfiles.append (hyears.2 (today, env) (by simp)) hle env
      refine ⟨groups', by rwa [hrun], ?_, ?_⟩
      · rw [henvs', henvs, List.map_append]
        rfl
      · intro g hg
        rcases hmem' g hg with ⟨g', hg', hday⟩ | hday
        · obtain ⟨r, hr, hr'⟩ := hmem g' hg'
          exact ⟨r, List.mem_append_left _ hr, hr'.trans hday⟩
        · exact ⟨(today, env), by simp, hday.symm⟩

/-! ## Lines of a newer version -/

/-- The line is an object that says it is of version `w`. -/
def Serde.IsVersion (serde : Serde) (bs : List UInt8) (w : UInt64) : Prop :=
  ∃ text members v, Utf8.decode bs = some text ∧
    Json.parse text.toList = some (.object members) ∧ ("v", v) ∈ members ∧
    serde.readU64 v = some w

theorem lookup_of_count {members : List (String × Json)} {key : String} {v : Json}
    (hcount : (members.map (·.1)).count key ≤ 1) (h : (key, v) ∈ members) :
    members.lookup key = some v := by
  induction members with
  | nil => cases h
  | cons m members ih =>
    obtain ⟨k, x⟩ := m
    rw [List.map_cons, List.count_cons] at hcount
    by_cases hk : k = key
    · subst hk
      cases List.mem_cons.1 h with
      | inl heq =>
        cases heq
        rw [List.lookup_cons_self]
      | inr hmem =>
        have hpos : 0 < (members.map (·.1)).count k :=
          List.count_pos_iff.2 (List.mem_map.2 ⟨_, hmem, rfl⟩)
        simp at hcount
        omega
    · have hne : (key == k) = false := by simpa using Ne.symm hk
      have hmem : (key, v) ∈ members := by
        cases List.mem_cons.1 h with
        | inl heq =>
          cases heq
          exact absurd rfl hk
        | inr hmem => exact hmem
      rw [List.lookup_cons, hne]
      exact ih (by omega) hmem

theorem stepValue_whiteSpace {c : Char} (hc : isWhiteSpace c = true) :
    Json.stepValue [] c = some (.value []) ∨ Json.stepValue [] c = none := by
  have hne {d : Char} (hd : isWhiteSpace d = false) : c ≠ d := by
    rintro rfl
    rw [hc] at hd
    cases hd
  have hdigit : c.isDigit = false := by
    rw [← Bool.not_eq_true]
    intro hdigit
    simp only [Char.isDigit, Bool.and_eq_true, decide_eq_true_eq] at hdigit
    have hlow : 48 ≤ c.toNat := UInt32.le_iff_toNat_le.1 hdigit.1
    have hhigh : c.toNat ≤ 57 := UInt32.le_iff_toNat_le.1 hdigit.2
    simp [isWhiteSpace] at hc
    omega
  by_cases hblank : Json.isBlank c = true
  · left
    rw [Json.stepValue, if_pos hblank]
  · right
    rw [Json.stepValue, if_neg hblank, if_neg (hne rfl), if_neg (hne rfl), if_neg (hne rfl),
      if_neg (hne rfl), if_neg (hne rfl), if_neg (hne rfl), hdigit]
    simp [hne (d := '-') rfl]

theorem parse_whiteSpace {cs : List Char} (h : cs.all isWhiteSpace = true) :
    Json.parse cs = none := by
  have hrun : Json.run (.value []) cs = some (.value []) ∨ Json.run (.value []) cs = none := by
    induction cs with
    | nil => exact Or.inl rfl
    | cons c cs ih =>
      rw [List.all_cons, Bool.and_eq_true] at h
      rw [Json.run_cons, Json.step]
      rcases stepValue_whiteSpace h.1 with hc | hc
      · rw [hc, Option.bind_some]
        exact ih h.2
      · rw [hc]
        exact Or.inr rfl
  rw [Json.parse]
  rcases hrun with hrun | hrun
  · rw [hrun]
    rfl
  · rw [hrun]
    rfl

/-- What an object is decoded as has the version the object says. -/
theorem Serde.version_of_readEnvelope {serde : Serde} {members : List (String × Json)} {v : Json}
    {w : UInt64} {env : Envelope} (hmem : ("v", v) ∈ members) (hw : serde.readU64 v = some w)
    (h : serde.readEnvelope (.object members) = some env) : env.v.toNat = w.toNat := by
  rw [readEnvelope] at h
  split_ifs at h with hkeys
  have hlookup : members.lookup "v" = some v := lookup_of_count (hkeys.2 "v" (by decide)) hmem
  obtain ⟨v', hv', h⟩ := Option.bind_eq_some_iff.1 h
  rw [required, hlookup, Option.bind_some, JsonLib.readU16, hw, Option.bind_some] at hv'
  split_ifs at hv' with hlt
  have henv : env.v = v' := by
    simp only [Option.bind_eq_bind, Option.bind_eq_some_iff, Option.pure_def,
      Option.some.injEq] at h
    obtain ⟨_, -, _, -, _, -, _, -, _, -, _, -, rfl⟩ := h
    rfl
  rw [henv, ← Option.some.inj hv', UInt16.toNat_ofNat']
  exact Nat.mod_eq_of_lt hlt

theorem readLine_newer {serde : Serde} {bs : List UInt8} {w : UInt64} (h : serde.IsVersion bs w)
    (hnewer : ENVELOPE_VERSION.toNat < w.toNat) (n : ℕ) :
    ∃ e, readLine n (serde.readRaw bs) = some (.error e) := by
  obtain ⟨text, members, v, hdecode, hparse, hmem, hw⟩ := h
  have hblank : text.toList.all isWhiteSpace = false := by
    rw [← Bool.not_eq_true]
    intro hblank
    rw [parse_whiteSpace hblank] at hparse
    cases hparse
  rw [Serde.readRaw, hdecode]
  dsimp only
  rw [Serde.decode]
  cases hread : (Json.parseWithin nestingLimit text.toList).bind serde.readEnvelope with
  | none =>
    dsimp only
    rw [readLine, hblank]
    exact ⟨_, rfl⟩
  | some env =>
    obtain ⟨doc, hdoc, henv⟩ := Option.bind_eq_some_iff.1 hread
    obtain rfl : doc = .object members :=
      Option.some.inj ((Json.parseWithin_eq_some_iff.1 hdoc).1.symm.trans hparse)
    have hv : ENVELOPE_VERSION < env.v := by
      rw [UInt16.lt_iff_toNat_lt, Serde.version_of_readEnvelope hmem hw henv]
      exact hnewer
    dsimp only
    rw [readLine, hblank, Envelope.validate, if_pos hv]
    exact ⟨_, rfl⟩

theorem readItems_streamRun_iff (serde : Serde) (actions : List StreamAction)
    (hwritable : ∀ r ∈ appended actions, serde.Writable r.2)
    (hdays : ((appended actions).map (·.1)).Pairwise (· ≤ ·))
    (hyears : ∀ r ∈ appended actions, r.1.FourDigit) :
    readItems ((streamRun serde actions).2.files serde) =
        (appended actions).map (fun r => .ok r.2) ↔
      ∀ r ∈ appended actions, r.2.kind.Shallow := by
  obtain ⟨groups, hfiles, henvs, -⟩ := dayFiles_streamRun serde hdays hyears
  have hall {P : Envelope → Prop} :
      (∀ env ∈ groups.flatMap (·.2), P env) ↔ ∀ r ∈ appended actions, P r.2 := by
    rw [henvs]
    exact List.forall_mem_map
  have hmap : (appended actions).map (fun r => .ok r.2) =
      (groups.flatMap (·.2)).map (Except.ok : Envelope → ReadItem) := by
    rw [henvs, List.map_map]
    rfl
  rw [hfiles.readItems_eq (hall.2 hwritable), hmap, DayFiles.storedItems_eq_iff, hall]

/-- Whatever is appended to a stream is read back from its files, in order and without an error,
exactly when no raw record has a payload that is nested too deep for its line; and what is of a
newer version is never decoded. -/
theorem capture_round_trips_iff (serde : Serde) (actions : List StreamAction)
    (hwritable : ∀ r ∈ appended actions, serde.Writable r.2)
    (hdays : ((appended actions).map (·.1)).Pairwise (· ≤ ·))
    (hyears : ∀ r ∈ appended actions, r.1.FourDigit) :
    (readItems ((streamRun serde actions).2.files serde) =
        (appended actions).map (fun r => .ok r.2) ∧
      ∀ bs w n, serde.IsVersion bs w → ENVELOPE_VERSION.toNat < w.toNat →
        ∃ e, readLine n (serde.readRaw bs) = some (.error e)) ↔
      ∀ r ∈ appended actions, r.2.kind.Shallow := by
  rw [and_iff_left fun bs w n hversion hnewer => readLine_newer hversion hnewer n]
  exact readItems_streamRun_iff serde actions hwritable hdays hyears

/-- Two days of a stream whose writer is opened a second time: a trade without an id, a gap marker
and a message that was not understood. -/
def streamSample : List StreamAction :=
  let trade : Trade :=
    { ticker := ⟨"K"⟩, ts := .sample, price := ⟨450000⟩, count := ⟨100⟩, takerSide := .yes
      takerBookSide := some .bid, tradeId := none }
  let gap : GapMarker :=
    { reason := .reconnect, ticker := ⟨"K"⟩, channel := "trade", lastSeq := some 7
      observedSeq := none, detail := "line\nbreak \"quoted\"" }
  let raw : RawFallback :=
    { rawType := none, ticker := some ⟨"K"⟩, error := "price"
      payload := .object [("a", .array [.null, .number (.negInt (-3))])] }
  [.append ⟨2026, 5, 30, by decide⟩ (.new .sample (some 8) (some 1) (.trade trade)), .reopen,
    .append ⟨2026, 5, 30, by decide⟩ (.new .sample none none (.gap gap)),
    .append ⟨2026, 6, 1, by decide⟩ (.new .sample none (some 1) (.raw raw))]

theorem capture_round_trips_iff_sample :
    readItems ((streamRun .sample streamSample).2.files .sample) =
      (appended streamSample).map fun r => .ok r.2 := by
  refine ((capture_round_trips_iff .sample streamSample ?_ (by decide) (by decide)).2 ?_).1
  · simp only [appended, streamSample, StreamAction.record, List.filterMap_cons, List.filterMap_nil,
      List.forall_mem_cons]
    refine ⟨⟨trivial, rfl⟩, ⟨trivial, rfl⟩, ⟨?_, rfl⟩, by simp⟩
    exact ⟨List.pairwise_singleton _ _, ⟨trivial, (by decide : (-3 : Int64).toInt < 0), trivial⟩,
      trivial⟩
  · simp only [appended, streamSample, StreamAction.record, List.filterMap_cons, List.filterMap_nil,
      List.forall_mem_cons]
    exact ⟨trivial, trivial, by decide, by simp⟩

/-! ## A payload that is read by itself and not in its line -/

/-- Arrays in each other. -/
def Value.nested : ℕ → Value
  | 0 => .null
  | n + 1 => .array [nested n]

theorem Value.depth_nested (n : ℕ) : (nested n).depth = n := by
  induction n with
  | zero => rfl
  | succ n ih => rw [nested, depth, depthElements, depthElements, ih, Nat.max_zero]

theorem Value.held_nested (lib : JsonLib) (n : ℕ) : (nested n).Held lib := by
  induction n with
  | zero => trivial
  | succ n ih => exact ⟨ih, trivial⟩

/-- A message of a type that is not known, kept whole. -/
def deepRaw : Envelope :=
  .new .sample none none (.raw
    { rawType := some "x", ticker := none, error := "unknown frame type \"x\""
      payload := .nested 126 })

/-- The library reads the payload by itself, but nothing of the record that keeps it. -/
theorem deep_payload_not_read : Serde.sample.parse (Value.nested 126).text = .ok (.nested 126) ∧
    readItems ((streamRun .sample [.append ⟨2026, 5, 30, by decide⟩ deepRaw]).2.files .sample) ≠
      [.ok deepRaw] := by
  refine ⟨JsonLib.parse_text (Value.held_nested _ _) (by rw [Value.depth_nested]; decide), ?_⟩
  intro hread
  have hwritable : Serde.sample.Writable deepRaw := ⟨Value.held_nested _ _, rfl⟩
  have hall := (readItems_streamRun_iff .sample [.append ⟨2026, 5, 30, by decide⟩ deepRaw]
    (by simpa [appended, StreamAction.record] using hwritable) (by decide) (by decide)).1 hread
  have hdeep : (Value.nested 126).depth + 2 ≤ nestingLimit :=
    hall (⟨2026, 5, 30, by decide⟩, deepRaw) List.mem_cons_self
  rw [Value.depth_nested] at hdeep
  exact absurd hdeep (by decide)

end Snapevent
