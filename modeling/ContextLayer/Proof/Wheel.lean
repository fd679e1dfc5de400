import ContextLayer.Wheel
import ContextLayer.Lib.Lines
import ContextLayer.Proof.CanonicalJson
import ContextLayer.Proof.CodePoints

/-!
# The carry converges

The header comes out of a second carry as it went in, so everything hangs on the fields: where each text that stays is
read as itself, the next sync finds the version it asked for and writes the same text again.
-/

namespace ContextLayer.Wheel

open Text

/-! ### The leading comments -/

section

variable {raw : Text}

theorem isHeaderLine_nil : isHeaderLine [] = true := by decide

/-- The header without the line feeds at its end. -/
def comments (raw : Text) : Text := ([lineFeed].intercalate (headerLines raw)).rdropWhile (· = lineFeed)

theorem notMem_headerLines {line : Text} (h : line ∈ headerLines raw) : lineFeed ∉ line :=
  Lines.notMem_of_mem_splitOn ((List.takeWhile_prefix _).subset h)

theorem splitOn_header (hne : headerLines raw ≠ []) :
    ([lineFeed].intercalate (headerLines raw)).splitOn lineFeed = headerLines raw :=
  List.splitOn_intercalate lineFeed (fun _ h => notMem_headerLines h) hne

/-- A line of the comments is one of the header. -/
theorem mem_splitOn_comments (hne : headerLines raw ≠ []) {line : Text}
    (h : line ∈ (comments raw).splitOn lineFeed) : line ∈ headerLines raw := by
  have hsplit := List.rdropWhile_append_rtakeWhile (p := fun u => decide (u = lineFeed))
    (l := [lineFeed].intercalate (headerLines raw))
  cases htail : ([lineFeed].intercalate (headerLines raw)).rtakeWhile (· = lineFeed) with
  | nil =>
      rw [htail, List.append_nil] at hsplit
      rw [← splitOn_header hne, ← hsplit]
      exact h
  | cons u rest =>
      have hu : u = lineFeed := by
        have hmem : u ∈ ([lineFeed].intercalate (headerLines raw)).rtakeWhile (· = lineFeed) :=
          htail ▸ List.mem_cons_self
        simpa using List.mem_rtakeWhile_imp hmem
      subst hu
      rw [htail] at hsplit
      rw [← splitOn_header hne, ← hsplit, Lines.splitOn_append_cons]
      exact List.mem_append_left _ h

theorem isHeaderLine_comments (hne : headerLines raw ≠ []) :
    ∀ line ∈ (comments raw).splitOn lineFeed, isHeaderLine line = true :=
  fun _ h => List.mem_takeWhile_imp (mem_splitOn_comments hne h)

theorem header_eq (hne : headerLines raw ≠ []) : header raw = comments raw ++ [lineFeed, lineFeed] := by
  rw [header, if_neg hne, comments]

/-- The header is lines of its own. -/
theorem exists_splitOn_header (hne : headerLines raw ≠ []) : ∃ pieces, pieces = (comments raw).splitOn lineFeed ++ [[]] ∧
    (∀ line ∈ pieces, isHeaderLine line = true) ∧
      ∀ body, (header raw ++ body).splitOn lineFeed = pieces ++ body.splitOn lineFeed := by
  refine ⟨_, rfl, fun line hline => ?_, fun body => ?_⟩
  · obtain hline | hline := List.mem_append.mp hline
    · exact isHeaderLine_comments hne line hline
    · rw [List.mem_singleton.mp hline]
      exact isHeaderLine_nil
  · rw [header_eq hne, List.append_assoc, List.cons_append, List.singleton_append, Lines.splitOn_append_cons,
      ← List.nil_append (lineFeed :: body), Lines.splitOn_append_cons, List.splitOn_nil, List.append_assoc]

theorem dropWhile_header (raw body : Text) : ((header raw ++ body).splitOn lineFeed).dropWhile isHeaderLine =
    (body.splitOn lineFeed).dropWhile isHeaderLine := by
  by_cases hne : headerLines raw = []
  · rw [header, if_pos hne, List.nil_append]
  · obtain ⟨pieces, -, hpieces, hsplit⟩ := exists_splitOn_header hne
    rw [hsplit, List.dropWhile_append_of_pos hpieces]

/-- **The header is a fixpoint** ahead of a text that goes on with a field. -/
theorem header_append {body line : Text} {rest : List Text} (hbody : body.splitOn lineFeed = line :: rest)
    (hline : isHeaderLine line = false) : header (header raw ++ body) = header raw := by
  have hstop : (body.splitOn lineFeed).takeWhile isHeaderLine = [] := by
    rw [hbody, List.takeWhile_cons_of_neg (by rw [hline]; exact Bool.false_ne_true)]
  by_cases hne : headerLines raw = []
  · have hheader : header raw = [] := by rw [header, if_pos hne]
    rw [hheader, List.nil_append, header, headerLines, if_pos hstop]
  · obtain ⟨pieces, hcomments, hpieces, hsplit⟩ := exists_splitOn_header hne
    have hlines : headerLines (header raw ++ body) = pieces := by
      rw [headerLines, hsplit, List.takeWhile_append_of_pos hpieces, hstop, List.append_nil]
    have hjoin : [lineFeed].intercalate pieces = comments raw ++ [lineFeed] := by
      rw [hcomments, ← Lines.splitOn_concat, List.intercalate_splitOn]
    have hsome : headerLines (header raw ++ body) ≠ [] := by
      rw [hlines, hcomments]
      exact List.append_ne_nil_of_right_ne_nil _ (List.cons_ne_nil _ _)
    rw [header_eq hsome, comments, hlines, hjoin, List.rdropWhile_concat_pos _ _ _ (by decide), header_eq hne]
    congr 1
    rw [comments, List.rdropWhile_idempotent]

theorem isSurrogate_lineFeed : isSurrogate lineFeed = false := by decide

/-- The lines of Unicode text are Unicode text. -/
theorem isWellFormed_lines {pieces : List Text} :
    isWellFormed (pieces.flatMap fun line => line ++ [lineFeed]) = true ↔ ∀ line ∈ pieces, isWellFormed line = true := by
  induction pieces with
  | nil => exact iff_of_true rfl (List.forall_mem_nil _)
  | cons line rest ih =>
      rw [List.flatMap_cons, List.append_assoc, List.singleton_append, isWellFormed_append_cons isSurrogate_lineFeed, ih,
        List.forall_mem_cons]

theorem isWellFormed_concat {s : Text} : isWellFormed (s ++ [lineFeed]) = true ↔ isWellFormed s = true :=
  (isWellFormed_append_cons isSurrogate_lineFeed).trans (and_iff_left rfl)

theorem isWellFormed_header (h : isWellFormed raw = true) : isWellFormed (header raw) = true := by
  by_cases hne : headerLines raw = []
  · rw [header, if_pos hne]
    rfl
  · have hraw : ∀ line ∈ raw.splitOn lineFeed, isWellFormed line = true := by
      rw [← isWellFormed_lines, Lines.flatMap_splitOn, isWellFormed_concat]
      exact h
    have hcomments : isWellFormed (comments raw) = true := by
      rw [← isWellFormed_concat, ← Lines.flatMap_splitOn, isWellFormed_lines]
      exact fun line hline => hraw line ((List.takeWhile_prefix _).subset (mem_splitOn_comments hne hline))
    rw [header_eq hne, show [lineFeed, lineFeed] = [lineFeed] ++ [lineFeed] from rfl, ← List.append_assoc,
      isWellFormed_concat, isWellFormed_concat]
    exact hcomments

end

/-! ### The written text -/

section

variable {raw : Text} {fields : List (String × Text)} {deps : Option (List Text)}

theorem manifestText_eq (hnames : fields.map Prod.fst = fieldNames) : manifestText raw fields deps =
    header raw ++ (fields.map fieldLine ++ depLines deps).flatMap fun line => line ++ [lineFeed] := by
  have hne : fields.map fieldLine ++ depLines deps ≠ [] := by
    cases fields with
    | nil => cases hnames
    | cons f rest => exact List.cons_ne_nil _ _
  rw [manifestText, Lines.intercalate_append hne]

/-- The first line is that of `package`. -/
theorem splitOn_body (hnames : fields.map Prod.fst = fieldNames) (deps : Option (List Text)) : ∃ line rest,
    ((fields.map fieldLine ++ depLines deps).flatMap fun line => line ++ [lineFeed]).splitOn lineFeed = line :: rest ∧
      isHeaderLine line = false := by
  cases fields with
  | nil => cases hnames
  | cons f rest =>
      have hname : f.1 = "package" := (List.cons.inj hnames).1
      have hletter : ∃ tail, fieldLine f = 0x70 :: tail := by
        rw [fieldLine, hname]
        exact ⟨js "ackage" ++ (js ": " ++ f.2), rfl⟩
      obtain ⟨tail, htail⟩ := hletter
      rw [List.map_cons, List.cons_append, List.flatMap_cons, htail, List.cons_append, List.cons_append]
      obtain ⟨piece, pieces, hpieces⟩ := Lines.splitOn_cons_of_ne (show (0x70 : UInt16) ≠ lineFeed by decide)
        (tail ++ [lineFeed] ++ (rest.map fieldLine ++ depLines deps).flatMap fun line => line ++ [lineFeed])
      have htrim : Connections.trim (0x70 :: piece) ≠ [] :=
        Partition.strip_ne_nil.mpr ⟨0x70, List.mem_cons_self, by decide⟩
      exact ⟨_, _, hpieces, by simp [isHeaderLine, htrim]⟩

theorem header_manifestText (hnames : fields.map Prod.fst = fieldNames) :
    header (manifestText raw fields deps) = header raw := by
  rw [manifestText_eq hnames]
  obtain ⟨line, rest, hbody, hline⟩ := splitOn_body hnames deps
  exact header_append hbody hline

theorem isWellFormed_manifestText (hraw : isWellFormed raw = true) (hnames : fields.map Prod.fst = fieldNames)
    (hfields : ∀ f ∈ fields, isWellFormed f.2 = true) (hdeps : ∀ ds ∈ deps, ∀ dep ∈ ds, isWellFormed dep = true) :
    isWellFormed (manifestText raw fields deps) = true := by
  rw [manifestText_eq hnames]
  refine isWellFormed_append (isWellFormed_header hraw) (isWellFormed_lines.mpr fun line hline => ?_)
  have hnamed : ∀ name ∈ fieldNames, isWellFormed (js name) = true := by decide
  obtain hline | hline := List.mem_append.mp hline
  · obtain ⟨f, hf, rfl⟩ := List.mem_map.mp hline
    have hname : f.1 ∈ fieldNames := hnames ▸ List.mem_map_of_mem hf
    exact isWellFormed_append (isWellFormed_append (hnamed _ hname) (by decide)) (hfields f hf)
  · cases deps with
    | none => cases hline
    | some ds =>
        obtain rfl | hline := List.mem_cons.mp hline
        · decide
        · obtain ⟨dep, hdep, rfl⟩ := List.mem_map.mp hline
          exact isWellFormed_append (by decide) (hdeps ds rfl dep hdep)

end

/-! ### One carry -/

section

variable {Content : Type} {host : Host Content} {cfg : SyncConfig} {carry : WheelCarry} {old : Manifest}
  {files : Files Content} {wheel : Content}

theorem placeWheel_of_ne {path : Path} (hdest : path ≠ wheelDest host carry) (hreplaced : replaced host carry ≠ some path) :
    placeWheel host carry wheel files path = files path := by
  unfold placeWheel
  cases hold : replaced host carry with
  | none => exact Function.update_of_ne hdest _ _
  | some p =>
      have hne : path ≠ p := fun heq => hreplaced (heq ▸ hold)
      exact (Function.update_of_ne hne _ _).trans (Function.update_of_ne hdest _ _)

theorem placeWheel_dest (hreplaced : replaced host carry ≠ some (wheelDest host carry)) :
    placeWheel host carry wheel files (wheelDest host carry) = some wheel := by
  unfold placeWheel
  cases hold : replaced host carry with
  | none => exact Function.update_self _ _ _
  | some p =>
      have hne : wheelDest host carry ≠ p := fun heq => hreplaced (heq ▸ hold)
      exact (Function.update_of_ne hne _ _).trans (Function.update_self _ _ _)

theorem placeWheel_replaced {path : Path} (h : replaced host carry = some path) :
    placeWheel host carry wheel files path = none := by
  rw [placeWheel, h]
  exact Function.update_self _ _ _

/-- Where the wheel is placed already, nothing changes. -/
theorem placeWheel_eq_self (hdest : files (wheelDest host carry) = some wheel)
    (hreplaced : ∀ path ∈ replaced host carry, files path = none) : placeWheel host carry wheel files = files := by
  have hcopied : Function.update files (wheelDest host carry) (some wheel) = files := by
    rw [← hdest, Function.update_eq_self]
  unfold placeWheel
  rw [hcopied]
  cases hold : replaced host carry with
  | none => rfl
  | some path =>
      dsimp only
      rw [← hreplaced path hold, Function.update_eq_self]

/-- What is written from the old manifest. -/
def written (host : Host Content) (cfg : SyncConfig) (carry : WheelCarry) (old : Manifest) (wheel : Content) : Text :=
  manifestText old.raw (manifestFields cfg carry (host.sha256 wheel) (cfg.wheelBuilt.getD host.modified) (some old))
    (manifestDeps (some old))

theorem applyWheelCarry_eq {wheelPath : Text} (hpath : given cfg.wheelPath = some wheelPath)
    (hwheel : files (wheelFile host wheelPath) = some wheel)
    (hplaced : placeWheel host carry wheel files (wheelFile host wheelPath) = some wheel)
    (hdest : replaced host carry ≠ some (wheelDest host carry))
    (hread : readManifest host (placeWheel host carry wheel files) = some old) :
    applyWheelCarry host cfg carry files = some (Function.update (placeWheel host carry wheel files)
      (manifestPath host) (some (host.ofText (written host cfg carry old wheel)))) := by
  simp only [applyWheelCarry, written, hpath, hwheel, hread, placeWheel_dest hdest, Option.bind_eq_bind,
    Option.bind_some]
  cases cfg.wheelBuilt with
  | none =>
      rw [hplaced]
      rfl
  | some built => rfl

theorem manifestFields_names {sha256 built : Text} {manifest : Option Manifest} :
    (manifestFields cfg carry sha256 built manifest).map Prod.fst = fieldNames := rfl

end

/-! ### Two carries -/

theorem listed_eq {item : Text → Option Yaml} {deps : List Yaml} (hne : deps ≠ [])
    (h : ∀ dep ∈ deps, item dep.string = some dep) : listed item (deps.map Yaml.string) = some (.seq deps) := by
  have hmapM : ∀ {l : List Yaml}, (∀ dep ∈ l, item dep.string = some dep) → (l.map Yaml.string).mapM item = some l := by
    intro l hl
    induction l with
    | nil => rfl
    | cons dep rest ih =>
        obtain ⟨hdep, hrest⟩ := List.forall_mem_cons.mp hl
        rw [List.map_cons, List.mapM_cons, hdep, ih hrest]
        rfl
  cases deps with
  | nil => exact absurd rfl hne
  | cons dep rest =>
      change (((dep :: rest).map Yaml.string).mapM item).map Yaml.seq = _
      rw [hmapM h]
      rfl

section

variable {Content : Type} {host : Host Content} {cfg : SyncConfig} {carry : WheelCarry} {old new : Manifest}
  {files : Files Content} {wheel : Content} {value item : Text → Option Yaml}

theorem readManifest_congr {files' : Files Content} (h : files' (manifestPath host) = files (manifestPath host)) :
    readManifest host files' = readManifest host files := by
  rw [readManifest, readManifest, h]

theorem string_map {raw : Text} {m : List (Text × Yaml)} {key : String} {s : Text} :
    (Manifest.mk raw (.map m)).string key = some s ↔ Dict.get? m (js key) = some (.str s) := by
  change (Dict.get? m (js key)).bind Yaml.asString = some s ↔ _
  cases Dict.get? m (js key) with
  | none => simp
  | some v => cases v <;> simp [Yaml.asString]

theorem deps_map {raw : Text} {m : List (Text × Yaml)} {deps : List Yaml} :
    (Manifest.mk raw (.map m)).deps = some deps ↔ Dict.get? m (js "runtime_deps") = some (.seq deps) := by
  change (Dict.get? m (js "runtime_deps")).bind Yaml.asArray = some deps ↔ _
  cases Dict.get? m (js "runtime_deps") with
  | none => simp
  | some v => cases v <;> simp [Yaml.asArray]

theorem keep_some {key : String} {s fallback : Text} (h : old.string key = some s) :
    keep (some old) key fallback = s := by
  rw [keep, Option.bind_some, h, Option.getD_some]

theorem mem_manifestFields {f : String × Text} (hf : f ∈ fallbacks) {sha256 built : Text} :
    (f.1, keep (some old) f.1 f.2) ∈ manifestFields cfg carry sha256 built (some old) := by
  simp only [fallbacks, List.mem_cons, List.not_mem_nil, or_false] at hf
  obtain rfl | rfl | rfl := hf <;> simp [manifestFields]

theorem value_keep (hreads : ReadsManifests host.parse value item) (hback : ReadsBack carry old value item)
    {f : String × Text} (hf : f ∈ fallbacks) :
    value (keep (some old) f.1 f.2) = some (.str (keep (some old) f.1 f.2)) := by
  rw [keep, Option.bind_some]
  cases hstring : old.string f.1 with
  | none => exact hreads.fallbacks f hf
  | some s => exact hback.kept f hf s hstring

/-- Every field has a value on its line. -/
theorem value_fields (hsound : host.IsSound) (hreads : ReadsManifests host.parse value item)
    (hlegible : Legible host cfg carry value) (hback : ReadsBack carry old value item) :
    ∀ f ∈ manifestFields cfg carry (host.sha256 wheel) (cfg.wheelBuilt.getD host.modified) (some old),
      (value f.2).isSome = true := by
  have hkeep : ∀ f ∈ fallbacks, (value (keep (some old) f.1 f.2)).isSome = true :=
    fun f hf => by rw [value_keep hreads hback hf]; rfl
  have hcommit : (value (cfg.platformCommit.getD (js "unknown"))).isSome = true := by
    cases hsome : cfg.platformCommit with
    | none => exact hreads.constants.1
    | some commit => exact hlegible.commit commit hsome
  obtain ⟨hne, hhex⟩ := hsound.sha256_hex wheel
  simp only [fallbacks, List.forall_mem_cons] at hkeep
  obtain ⟨hpackage, hsource, hpinned, -⟩ := hkeep
  simp only [manifestFields, List.forall_mem_cons]
  exact ⟨hpackage, by rw [hback.version]; rfl, hlegible.wheel, hreads.digest _ hne hhex, hcommit, hlegible.built,
    hreads.constants.2, hsource, hpinned, List.forall_mem_nil _⟩

variable (wheel) in
theorem exists_entries (hsound : host.IsSound) (hreads : ReadsManifests host.parse value item)
    (hmapping : IsMapping (host.parse old.raw)) (hlegible : Legible host cfg carry value)
    (hback : ReadsBack carry old value item) : ∃ m, host.parse (written host cfg carry old wheel) = some (.map m) ∧
      (∀ f ∈ manifestFields cfg carry (host.sha256 wheel) (cfg.wheelBuilt.getD host.modified) (some old),
        Dict.get? m (js f.1) = value f.2) ∧ (Manifest.mk (written host cfg carry old wheel) (.map m)).deps = old.deps := by
  have hitems : ∀ ds ∈ manifestDeps (some old), ∀ dep ∈ ds, (item dep).isSome = true := by
    intro ds hds dep hdep
    obtain ⟨deps, hdeps, rfl⟩ := Option.map_eq_some_iff.mp hds
    obtain ⟨v, hv, rfl⟩ := List.mem_map.mp hdep
    rw [(hback.deps deps hdeps).2 v hv]
    rfl
  obtain ⟨m, hm, hfields, hdeps⟩ := hreads.entries old.raw _ (manifestDeps (some old)) hmapping manifestFields_names
    (value_fields hsound hreads hlegible hback) hitems
  refine ⟨m, hm, hfields, ?_⟩
  cases hold : old.deps with
  | none =>
      have hnone : manifestDeps (some old) = none := by rw [manifestDeps, Option.bind_some, hold, Option.map_none]
      rw [hnone, Option.bind_none] at hdeps
      change (Dict.get? m (js "runtime_deps")).bind Yaml.asArray = none
      rw [hdeps]
      rfl
  | some deps =>
      have hsome : manifestDeps (some old) = some (deps.map Yaml.string) := by
        rw [manifestDeps, Option.bind_some, hold, Option.map_some]
      obtain ⟨hne, hread⟩ := hback.deps deps hold
      rw [hsome, Option.bind_some, listed_eq hne hread] at hdeps
      exact deps_map.mpr hdeps

/-- A manifest that kept what it should keep is written again as it is. -/
theorem written_eq (hraw : new.raw = written host cfg carry old wheel)
    (hkeep : ∀ f ∈ fallbacks, keep (some new) f.1 f.2 = keep (some old) f.1 f.2) (hdeps : new.deps = old.deps) :
    written host cfg carry new wheel = written host cfg carry old wheel := by
  have hfields : ∀ sha256 built, manifestFields cfg carry sha256 built (some new) =
      manifestFields cfg carry sha256 built (some old) := by
    intro sha256 built
    simp only [fallbacks, List.forall_mem_cons] at hkeep
    rw [manifestFields, manifestFields, hkeep.1, hkeep.2.1, hkeep.2.2.1]
  have hdeps' : manifestDeps (some new) = manifestDeps (some old) := by
    rw [manifestDeps, manifestDeps, Option.bind_some, Option.bind_some, hdeps]
  have hheader : header new.raw = header old.raw := by
    rw [hraw, written, header_manifestText manifestFields_names]
  rw [written, written, hfields, hdeps', manifestText, manifestText, hheader]

theorem planWheelCarry_eq_some (h : planWheelCarry host cfg files = some carry) :
    ∃ wheelPath, given cfg.wheelPath = some wheelPath ∧ given cfg.wheelVersion = some carry.toVersion := by
  obtain ⟨wheelPath, hpath, h⟩ := Option.bind_eq_some_iff.mp h
  obtain ⟨version, hversion, h⟩ := Option.bind_eq_some_iff.mp h
  by_cases hcurrent : ((readManifest host files).bind fun m => m.string "version") = some version
  · rw [if_pos hcurrent] at h
    cases h
  · rw [if_neg hcurrent] at h
    exact ⟨wheelPath, hpath, Option.some.inj h ▸ hversion⟩

/-- There is nothing to carry to a manifest of the version. -/
theorem planWheelCarry_eq_none {wheelPath version : Text} (hpath : given cfg.wheelPath = some wheelPath)
    (hversion : given cfg.wheelVersion = some version) : planWheelCarry host cfg files = none ↔
      ((readManifest host files).bind fun m => m.string "version") = some version := by
  simp only [planWheelCarry, hpath, hversion, Option.bind_eq_bind, Option.bind_some]
  by_cases hcurrent : ((readManifest host files).bind fun m => m.string "version") = some version
  · rw [if_pos hcurrent]
    exact iff_of_true rfl hcurrent
  · rw [if_neg hcurrent]
    exact iff_of_false (fun h => nomatch h) hcurrent

/-- The files after a carry, with the manifest it went by. -/
theorem exists_carried (hseparate : Separate host cfg carry old files) (hread : readManifest host files = some old) :
    ∃ wheelPath wheel, given cfg.wheelPath = some wheelPath ∧
      wheelFile host wheelPath ≠ manifestPath host ∧
      placeWheel host carry wheel files (wheelFile host wheelPath) = some wheel ∧
      applyWheelCarry host cfg carry files = some (Function.update (placeWheel host carry wheel files)
        (manifestPath host) (some (host.ofText (written host cfg carry old wheel)))) := by
  obtain ⟨⟨wheelPath, hpath, hwheel, hmanifest, hkept⟩, ⟨hdest, hreplaced⟩, hold, -, -, -⟩ := hseparate
  obtain ⟨wheel, hwheel⟩ := Option.isSome_iff_exists.mp hwheel
  have hplaced : placeWheel host carry wheel files (wheelFile host wheelPath) = some wheel := by
    by_cases hsame : wheelFile host wheelPath = wheelDest host carry
    · rw [hsame]
      exact placeWheel_dest hreplaced
    · rw [placeWheel_of_ne hsame hkept, hwheel]
  have hreadPlaced : readManifest host (placeWheel host carry wheel files) = some old :=
    (readManifest_congr (placeWheel_of_ne hdest.symm hold)).trans hread
  exact ⟨wheelPath, wheel, hpath, hmanifest, hplaced, applyWheelCarry_eq hpath hwheel hplaced hreplaced hreadPlaced⟩

variable (wheel) in
theorem isWellFormed_written (hsound : host.IsSound) (hseparate : Separate host cfg carry old files)
    (hread : readManifest host files = some old) :
    isWellFormed (written host cfg carry old wheel) = true := by
  have hraw : isWellFormed old.raw = true := by
    obtain ⟨content, -, hread⟩ := Option.bind_eq_some_iff.mp hread
    obtain ⟨v, -, hread⟩ := Option.bind_eq_some_iff.mp hread
    exact Option.some.inj hread ▸ hsound.text_wellFormed content
  have hdigest : isWellFormed (host.sha256 wheel) = true := by
    have hhex : ((js "0123456789abcdef").all fun u => !isSurrogate u) = true := by decide
    exact isWellFormed_of_units fun u hu => isSurrogate_of_all hhex u ((hsound.sha256_hex wheel).2 u hu)
  refine isWellFormed_manifestText hraw manifestFields_names ?_ fun ds hds dep hdep => ?_
  · have hfields := hseparate.fields
    simp only [manifestFields, List.forall_mem_cons] at hfields ⊢
    obtain ⟨hpackage, hversion, hwheel, -, hrest⟩ := hfields
    exact ⟨hpackage, hversion, hwheel, hdigest, hrest⟩
  · obtain ⟨deps, hdeps, rfl⟩ := Option.map_eq_some_iff.mp hds
    obtain ⟨v, hv, rfl⟩ := List.mem_map.mp hdep
    exact hseparate.deps deps hdeps v hv

/-- What is found where a text was written. -/
theorem readManifest_update (placed : Files Content) {t : Text} (hsound : host.IsSound) (ht : isWellFormed t = true) :
    readManifest host (Function.update placed (manifestPath host) (some (host.ofText t))) =
      (host.parse t).map fun v => ⟨t, match v with | .null => .map [] | v => v⟩ := by
  have htext : host.text (host.ofText t) = t := by rw [hsound.text_ofText, toWellFormed_of_isWellFormed ht]
  simp only [readManifest, Function.update_self, Option.bind_eq_bind, Option.bind_some, htext]
  cases host.parse t <;> rfl

/-- **A second carry** writes what is there, if it makes the same text of the new manifest. -/
theorem applyWheelCarry_again {wheelPath : Text} {placed after : Files Content} {t : Text}
    (hseparate : Separate host cfg carry old files) (hpath : given cfg.wheelPath = some wheelPath)
    (hmanifest : wheelFile host wheelPath ≠ manifestPath host) (hplaced : placed = placeWheel host carry wheel files)
    (hwheel : placed (wheelFile host wheelPath) = some wheel)
    (hafter : after = Function.update placed (manifestPath host) (some (host.ofText t)))
    (hread : readManifest host after = some new) (hsame : written host cfg carry new wheel = t) :
    applyWheelCarry host cfg carry after = some after := by
  obtain ⟨-, ⟨hdest, hreplaced⟩, hold, -, -, -⟩ := hseparate
  have hbeside : ∀ path, path ≠ manifestPath host → after path = placed path := by
    intro path hne
    rw [hafter, Function.update_of_ne hne]
  have hthere : after (wheelDest host carry) = some wheel := by
    rw [hbeside _ hdest, hplaced]
    exact placeWheel_dest hreplaced
  have hgone : ∀ path ∈ replaced host carry, after path = none := by
    intro path hpath
    have hne : path ≠ manifestPath host := fun heq => hold (heq ▸ hpath)
    rw [hbeside path hne, hplaced]
    exact placeWheel_replaced hpath
  have hplace : placeWheel host carry wheel after = after := placeWheel_eq_self hthere hgone
  have hfile : after (wheelFile host wheelPath) = some wheel := (hbeside _ hmanifest).trans hwheel
  rw [applyWheelCarry_eq hpath hfile (by rw [hplace, hfile]) hreplaced (by rw [hplace, hread]), hplace, hsame, hafter,
    Function.update_idem]

/-- **A carry converges** where what it writes is read back. -/
theorem converges (hsound : host.IsSound) (hreads : ReadsManifests host.parse value item)
    (hread : readManifest host files = some old) (hmapping : IsMapping (host.parse old.raw))
    (hplan : planWheelCarry host cfg files = some carry) (hseparate : Separate host cfg carry old files)
    (hlegible : Legible host cfg carry value) (hback : ReadsBack carry old value item) :
    Converges host cfg carry old files := by
  obtain ⟨wheelPath, wheel, hpath, hmanifest, hplaced, happly⟩ := exists_carried hseparate hread
  obtain ⟨m, hm, hfields, hdeps⟩ := exists_entries wheel hsound hreads hmapping hlegible hback
  obtain ⟨-, -, hversion⟩ := planWheelCarry_eq_some hplan
  have hnew := (readManifest_update (placeWheel host carry wheel files) hsound
    (isWellFormed_written wheel hsound hseparate hread)).trans (congrArg _ hm)
  have hkeep : ∀ f ∈ fallbacks, Manifest.string ⟨written host cfg carry old wheel, .map m⟩ f.1 =
      some (keep (some old) f.1 f.2) :=
    fun f hf => string_map.mpr ((hfields _ (mem_manifestFields hf)).trans (value_keep hreads hback hf))
  have hsame : written host cfg carry ⟨written host cfg carry old wheel, .map m⟩ wheel = written host cfg carry old wheel :=
    written_eq rfl (fun f hf => keep_some (hkeep f hf)) hdeps
  refine ⟨_, happly, _, hnew, ?_, ?_, ?_, ?_⟩
  · rw [planWheelCarry_eq_none hpath hversion, hnew]
    exact string_map.mpr ((hfields ("version", carry.toVersion) (by simp [manifestFields])).trans hback.version)
  · intro f hf s hs
    exact (hkeep f hf).trans (congrArg some (keep_some hs))
  · exact fun deps hold => hdeps.trans hold
  · exact applyWheelCarry_again hseparate hpath hmanifest rfl hplaced rfl hnew hsame

/-- The fields whose texts have to come back. -/
def asked (old : Manifest) : List String :=
  "version" :: (fallbacks.map Prod.fst).filter fun key => (old.string key).isSome

theorem mem_asked {f : String × Text} (hf : f ∈ fallbacks) : f.1 ∈ asked old ↔ (old.string f.1).isSome = true := by
  have hne : ∀ f ∈ fallbacks, f.1 ≠ "version" := by decide
  rw [asked, List.mem_cons, or_iff_right (hne f hf), List.mem_filter, and_iff_right (List.mem_map_of_mem hf)]

theorem lineFeed_notMem_keep {f : String × Text} (hf : f ∈ fallbacks) (h : f.1 ∉ asked old) :
    lineFeed ∉ keep (some old) f.1 f.2 := by
  have hline : ∀ f ∈ fallbacks, lineFeed ∉ f.2 := by decide
  rw [mem_asked hf, Option.not_isSome_iff_eq_none] at h
  rw [keep, Option.bind_some, h]
  exact hline f hf

/-- What nobody asks for is of one line. -/
theorem lineFeed_notMem_fields (hsound : host.IsSound) (hseparate : Separate host cfg carry old files) :
    ∀ f ∈ manifestFields cfg carry (host.sha256 wheel) (cfg.wheelBuilt.getD host.modified) (some old),
      f.1 ∉ asked old → lineFeed ∉ f.2 := by
  obtain ⟨hwheel, hcommit, hbuilt⟩ := hseparate.lines
  have hkeep : ∀ f ∈ fallbacks, f.1 ∉ asked old → lineFeed ∉ keep (some old) f.1 f.2 := fun _ => lineFeed_notMem_keep
  have hdigest : lineFeed ∉ host.sha256 wheel := by
    intro hmem
    exact absurd ((hsound.sha256_hex wheel).2 _ hmem) (by decide)
  have hcommit' : lineFeed ∉ cfg.platformCommit.getD (js "unknown") := by
    cases hsome : cfg.platformCommit with
    | none => decide
    | some commit =>
        rw [hsome] at hcommit
        exact hcommit
  simp only [fallbacks, List.forall_mem_cons] at hkeep
  obtain ⟨hpackage, hsource, hpinned, -⟩ := hkeep
  simp only [manifestFields, List.forall_mem_cons]
  exact ⟨hpackage, fun h => absurd List.mem_cons_self h, fun _ => hwheel, fun _ => hdigest, fun _ => hcommit',
    fun _ => hbuilt, fun _ => by decide, hsource, hpinned, List.forall_mem_nil _⟩

/-- A name stands for one field. -/
theorem eq_of_name {sha256 built : Text} {f g : String × Text}
    (hf : f ∈ manifestFields cfg carry sha256 built (some old)) (hg : g ∈ manifestFields cfg carry sha256 built (some old))
    (h : f.1 = g.1) : f = g :=
  List.inj_on_of_nodup_map (f := Prod.fst) (by rw [manifestFields_names]; decide) hf hg h

/-- **What converges is read back.** -/
theorem readsBack_of_converges (hsound : host.IsSound) (hreads : ReadsManifests host.parse value item)
    (hread : readManifest host files = some old) (hmapping : IsMapping (host.parse old.raw))
    (hplan : planWheelCarry host cfg files = some carry) (hseparate : Separate host cfg carry old files)
    (h : Converges host cfg carry old files) : ReadsBack carry old value item := by
  obtain ⟨wheelPath, wheel, hpath, -, -, happly⟩ := exists_carried hseparate hread
  obtain ⟨-, -, hversion⟩ := planWheelCarry_eq_some hplan
  obtain ⟨after, hafter, new, hnew, hnone, hkept, hdeps, -⟩ := h
  obtain rfl := Option.some.inj (happly.symm.trans hafter)
  rw [planWheelCarry_eq_none hpath hversion, hnew, Option.bind_some] at hnone
  rw [readManifest_update _ hsound (isWellFormed_written _ hsound hseparate hread)] at hnew
  obtain ⟨v, hv, rfl⟩ := Option.map_eq_some_iff.mp hnew
  -- the version was found, so there is a mapping
  obtain ⟨m, rfl⟩ : ∃ m, v = .map m := by
    cases v with
    | map m => exact ⟨m, rfl⟩
    | _ => cases hnone
  have hversionField : ("version", carry.toVersion) ∈
      manifestFields cfg carry (host.sha256 wheel) (cfg.wheelBuilt.getD host.modified) (some old) := by
    simp [manifestFields]
  have hfound : ∀ f ∈ manifestFields cfg carry (host.sha256 wheel) (cfg.wheelBuilt.getD host.modified) (some old),
      f.1 ∈ asked old → Dict.get? m (js f.1) = some (.str f.2) := by
    intro f hf hasked
    obtain hname | hname := List.mem_cons.mp hasked
    · obtain rfl := eq_of_name hf hversionField hname
      exact string_map.mp hnone
    · obtain ⟨hname, hsome⟩ := List.mem_filter.mp hname
      obtain ⟨g, hg, hname⟩ := List.mem_map.mp hname
      obtain ⟨s, hs⟩ := Option.isSome_iff_exists.mp hsome
      obtain rfl := eq_of_name hf (mem_manifestFields hg) hname.symm
      dsimp only at hs ⊢
      rw [keep_some hs]
      exact string_map.mp (hkept g hg s hs)
  obtain ⟨hvalues, hitems⟩ := hreads.back old.raw _ old.deps m (asked old) hmapping manifestFields_names
    (lineFeed_notMem_fields hsound hseparate) hv hfound fun deps hold => deps_map.mp (hdeps deps hold)
  refine ⟨hvalues _ hversionField List.mem_cons_self, fun f hf s hs => ?_, hitems⟩
  have hvalue := hvalues _ (mem_manifestFields hf) ((mem_asked hf).mpr (by rw [hs]; rfl))
  rwa [keep_some hs] at hvalue

/-- **The wheel carry**: with files of its own, what is written from plain texts is what the next sync reads and writes,
and what it reads and writes was written from plain texts. -/
theorem carry_converges_iff (hsound : host.IsSound) (hreads : ReadsManifests host.parse value item)
    (hread : readManifest host files = some old) (hmapping : IsMapping (host.parse old.raw))
    (hplan : planWheelCarry host cfg files = some carry) :
    (Separate host cfg carry old files ∧ Legible host cfg carry value ∧ ReadsBack carry old value item →
      Converges host cfg carry old files) ∧
    (Separate host cfg carry old files → Converges host cfg carry old files → ReadsBack carry old value item) :=
  ⟨fun ⟨hseparate, hlegible, hback⟩ => converges hsound hreads hread hmapping hplan hseparate hlegible hback,
    fun hseparate h => readsBack_of_converges hsound hreads hread hmapping hplan hseparate h⟩

end

/-! ### A reader of plain documents -/

def isAlphanumeric (u : UInt16) : Bool :=
  (decide (0x30 ≤ u) && decide (u ≤ 0x39)) || (decide (0x41 ≤ u) && decide (u ≤ 0x5A)) ||
    (decide (0x61 ≤ u) && decide (u ≤ 0x7A))

/-- No unit of a plain text means anything to YAML. -/
def isPlainText (t : Text) : Bool :=
  t.head?.any isAlphanumeric && t.all fun u => isAlphanumeric u || (js " ._-()=§/").contains u

/-- A decimal as `String` gives it. -/
def shortest (t : Text) : Text :=
  if 0x2E ∈ t then (t.rdropWhile (· = 0x30)).rdropWhile (· = 0x2E) else t

def plainNumber? (t : Text) : Option JsNumber :=
  if t.all (fun u => (decide (0x30 ≤ u) && decide (u ≤ 0x39)) || u == 0x2E) && decide (t.count 0x2E ≤ 1) then
    if h : shortest t ≠ [] ∧ (shortest t).all isNumeric = true then
      some ⟨shortest t, h.1, List.all_eq_true.mp h.2⟩
    else none
  else none

def plainValue (t : Text) : Option Yaml :=
  if isPlainText t then
    match plainNumber? t with
    | some n => some (.number n)
    | none => some (.str t)
  else none

/-- An item is a text. -/
def plainItem (t : Text) : Option Yaml :=
  match plainValue t with
  | some (.str s) => some (.str s)
  | _ => none

/-- The entries below a line, and the items that no key stands above yet. -/
abbrev Below := List (Text × Yaml) × List Yaml

def readEntry (below : Below) (key : Text) : Text → Option Below
  | [] => some ((key, if below.2.isEmpty then .null else .seq below.2) :: below.1, [])
  | 0x20 :: text =>
    if below.2.isEmpty then (plainValue text).map fun v => ((key, v) :: below.1, []) else none
  | _ => none

def readLine (line : Text) (below : Below) : Option Below :=
  if line = [] then some below
  else if (js "  - ").isPrefixOf line then (plainItem (line.drop 4)).map fun v => (below.1, v :: below.2)
  else (Partition.cut 0x3A line).bind fun parts => readEntry below parts.1 parts.2

def readLines : List Text → Option Below
  | [] => some ([], [])
  | line :: rest => (readLines rest).bind (readLine line)

/-- `parse` of a document of plain texts. -/
def plainParse (raw : Text) : Option Yaml :=
  match readLines ((raw.splitOn lineFeed).dropWhile isHeaderLine) with
  | some (entries, []) => some (.map entries)
  | _ => none

theorem plainValue_str {t s : Text} (h : plainValue t = some (.str s)) : s = t := by
  unfold plainValue at h
  split at h
  · split at h
    · cases h
    · exact (Yaml.str.inj (Option.some.inj h)).symm
  · cases h

theorem plainItem_eq {t : Text} {v : Yaml} (h : plainItem t = some v) : v = .str t ∧ plainValue t = some (.str t) := by
  unfold plainItem at h
  split at h
  case h_1 s hs =>
    obtain rfl := plainValue_str hs
    exact ⟨(Option.some.inj h).symm, hs⟩
  case h_2 => cases h

theorem plainValue_isSome {t : Text} (h : isPlainText t = true) : (plainValue t).isSome = true := by
  rw [plainValue, if_pos h]
  split <;> rfl

theorem lineFeed_notMem_of_plain {t : Text} (h : (plainValue t).isSome = true) : lineFeed ∉ t := by
  intro hmem
  have hplain : isPlainText t = true := by
    by_contra hplain
    rw [plainValue, if_neg hplain] at h
    cases h
  have hunit := List.all_eq_true.mp (Bool.and_eq_true_iff.mp hplain).2 lineFeed hmem
  exact absurd hunit (by decide)

/-! ### What a reader makes of the lines -/

/-- A line that starts with a letter is cut at its colon. -/
theorem readLine_key {key rest : Text} (hkey : key.head?.any isAlphanumeric = true) (hcolon : 0x3A ∉ key)
    (below : Below) : readLine (key ++ 0x3A :: rest) below = readEntry below key rest := by
  have hne : key ++ 0x3A :: rest ≠ [] := List.append_ne_nil_of_right_ne_nil _ (List.cons_ne_nil _ _)
  have hitem : ¬ (js "  - ").isPrefixOf (key ++ 0x3A :: rest) = true := by
    cases key with
    | nil => cases hkey
    | cons u tail =>
        intro hprefix
        obtain ⟨more, hmore⟩ := List.isPrefixOf_iff_prefix.mp hprefix
        have hu : u = 0x20 := (List.cons.inj hmore).1.symm
        subst hu
        cases hkey
  rw [readLine, if_neg hne, if_neg hitem, Partition.cut_append hcolon]
  rfl

theorem readLine_field {name : String} (hname : name ∈ fieldNames) (t : Text) (entries : List (Text × Yaml)) :
    readLine (fieldLine (name, t)) (entries, []) = (plainValue t).map fun v => ((js name, v) :: entries, []) := by
  have hkeys : ∀ name ∈ fieldNames, (js name).head?.any isAlphanumeric = true ∧ 0x3A ∉ js name := by decide
  have hline : fieldLine (name, t) = js name ++ 0x3A :: 0x20 :: t := by
    rw [fieldLine, List.append_assoc]
    rfl
  rw [hline, readLine_key (hkeys name hname).1 (hkeys name hname).2]
  rfl

theorem readLine_dep (dep : Text) (below : Below) :
    readLine (depLine dep) below = (plainItem dep).map fun v => (below.1, v :: below.2) := rfl

theorem readLines_fields {fields : List (String × Text)} (hnames : ∀ f ∈ fields, f.1 ∈ fieldNames)
    (hvalues : ∀ f ∈ fields, (plainValue f.2).isSome = true) {tail : List Text} {entries : List (Text × Yaml)}
    (htail : readLines tail = some (entries, [])) : readLines (fields.map fieldLine ++ tail) =
      some ((fields.map fun f => (js f.1, (plainValue f.2).getD .null)) ++ entries, []) := by
  induction fields with
  | nil => exact htail
  | cons f rest ih =>
      obtain ⟨hname, hnames⟩ := List.forall_mem_cons.mp hnames
      obtain ⟨hvalue, hvalues⟩ := List.forall_mem_cons.mp hvalues
      obtain ⟨v, hv⟩ := Option.isSome_iff_exists.mp hvalue
      rw [List.map_cons, List.cons_append, readLines, ih hnames hvalues, Option.bind_some, readLine_field hname, hv,
        List.map_cons, hv]
      rfl

theorem readLines_items {deps : List Text} (hitems : ∀ dep ∈ deps, (plainItem dep).isSome = true) {tail : List Text}
    {below : Below} (htail : readLines tail = some below) : ∃ vs, deps.mapM plainItem = some vs ∧
      readLines (deps.map depLine ++ tail) = some (below.1, vs ++ below.2) := by
  induction deps with
  | nil => exact ⟨[], rfl, htail⟩
  | cons dep rest ih =>
      obtain ⟨hitem, hitems⟩ := List.forall_mem_cons.mp hitems
      obtain ⟨v, hv⟩ := Option.isSome_iff_exists.mp hitem
      obtain ⟨vs, hvs, hread⟩ := ih hitems
      refine ⟨v :: vs, by rw [List.mapM_cons, hv, hvs]; rfl, ?_⟩
      rw [List.map_cons, List.cons_append, readLines, hread, Option.bind_some, readLine_dep, hv]
      rfl

/-- The entry of the dependencies. -/
def depEntries (deps : Option (List Text)) : List (Text × Yaml) :=
  match deps.bind (listed plainItem) with
  | some v => [(js "runtime_deps", v)]
  | none => []

theorem readLines_deps {deps : Option (List Text)} (hitems : ∀ ds ∈ deps, ∀ dep ∈ ds, (plainItem dep).isSome = true) :
    readLines (depLines deps ++ [[]]) = some (depEntries deps, []) := by
  cases deps with
  | none => rfl
  | some ds =>
      obtain ⟨vs, hvs, hread⟩ := readLines_items (hitems ds rfl) (show readLines [[]] = some ([], []) from rfl)
      rw [depLines, List.cons_append, readLines, hread, Option.bind_some]
      cases ds with
      | nil =>
          obtain rfl := Option.some.inj hvs
          rfl
      | cons dep rest =>
          have hlisted : listed plainItem (dep :: rest) = some (.seq vs) := congrArg (Option.map Yaml.seq) hvs
          have hne : vs ≠ [] := by
            rintro rfl
            rw [List.mapM_cons] at hvs
            cases hitem : plainItem dep <;> cases hmore : rest.mapM plainItem <;> rw [hitem] at hvs <;>
              simp [hmore] at hvs
          obtain ⟨v, vs, rfl⟩ := List.exists_cons_of_ne_nil hne
          have hline : js "runtime_deps:" = js "runtime_deps" ++ 0x3A :: [] := by decide
          rw [depEntries, Option.bind_some, hlisted, hline, readLine_key (by decide) (by decide), List.append_nil]
          rfl

theorem lineFeed_notMem_lines {fields : List (String × Text)} {deps : Option (List Text)}
    (hnames : ∀ f ∈ fields, f.1 ∈ fieldNames) (hvalues : ∀ f ∈ fields, (plainValue f.2).isSome = true)
    (hitems : ∀ ds ∈ deps, ∀ dep ∈ ds, (plainItem dep).isSome = true) :
    ∀ line ∈ fields.map fieldLine ++ depLines deps, lineFeed ∉ line := by
  have hnamed : ∀ name ∈ fieldNames, lineFeed ∉ js name := by decide
  intro line hline
  obtain hline | hline := List.mem_append.mp hline
  · obtain ⟨f, hf, rfl⟩ := List.mem_map.mp hline
    simp only [fieldLine, List.mem_append, not_or]
    exact ⟨⟨hnamed _ (hnames f hf), by decide⟩, lineFeed_notMem_of_plain (hvalues f hf)⟩
  · cases deps with
    | none => cases hline
    | some ds =>
        obtain rfl | hline := List.mem_cons.mp hline
        · decide
        · obtain ⟨dep, hdep, rfl⟩ := List.mem_map.mp hline
          obtain ⟨v, hv⟩ := Option.isSome_iff_exists.mp (hitems ds rfl dep hdep)
          rw [depLine, List.mem_append, not_or]
          exact ⟨by decide, lineFeed_notMem_of_plain (by rw [(plainItem_eq hv).2]; rfl)⟩

theorem plainParse_manifestText (raw : Text) {fields : List (String × Text)} {deps : Option (List Text)}
    (hnames : fields.map Prod.fst = fieldNames) (hvalues : ∀ f ∈ fields, (plainValue f.2).isSome = true)
    (hitems : ∀ ds ∈ deps, ∀ dep ∈ ds, (plainItem dep).isSome = true) : plainParse (manifestText raw fields deps) =
      some (.map ((fields.map fun f => (js f.1, (plainValue f.2).getD .null)) ++ depEntries deps)) := by
  have hname : ∀ f ∈ fields, f.1 ∈ fieldNames := fun f hf => hnames ▸ List.mem_map_of_mem hf
  have hlines := Lines.splitOn_flatMap (lineFeed_notMem_lines hname hvalues hitems)
  have hfirst : ((fields.map fieldLine ++ depLines deps) ++ [[]]).dropWhile isHeaderLine =
      fields.map fieldLine ++ (depLines deps ++ [[]]) := by
    obtain ⟨line, rest, hbody, hline⟩ := splitOn_body hnames deps
    rw [← List.append_assoc, ← hlines, hbody, List.dropWhile_cons_of_neg (by rw [hline]; exact Bool.false_ne_true)]
  rw [plainParse, manifestText_eq hnames, dropWhile_header, hlines, hfirst,
    readLines_fields hname hvalues (readLines_deps hitems)]

/-- Every text and every item is what it was read from. -/
structure Faithful (below : Below) : Prop where
  texts : ∀ e ∈ below.1, ∀ s, e.2 = .str s → plainValue s = some (.str s)
  lists : ∀ e ∈ below.1, ∀ items, e.2 = .seq items → items ≠ [] ∧ ∀ v ∈ items, plainItem v.string = some v
  items : ∀ v ∈ below.2, plainItem v.string = some v

theorem plainItem_string {t : Text} {v : Yaml} (h : plainItem t = some v) : plainItem v.string = some v := by
  have hv := (plainItem_eq h).1
  rw [hv, Yaml.string, h, hv]

theorem Faithful.entry {below : Below} (h : Faithful below) {key : Text} {v : Yaml}
    (htext : ∀ s, v = .str s → plainValue s = some (.str s))
    (hlist : ∀ items, v = .seq items → items ≠ [] ∧ ∀ v ∈ items, plainItem v.string = some v) :
    Faithful ((key, v) :: below.1, []) :=
  ⟨List.forall_mem_cons.mpr ⟨htext, h.texts⟩, List.forall_mem_cons.mpr ⟨hlist, h.lists⟩, List.forall_mem_nil _⟩

theorem Faithful.readEntry {below after : Below} (h : Faithful below) {key rest : Text}
    (hread : readEntry below key rest = some after) : Faithful after := by
  unfold Wheel.readEntry at hread
  split at hread
  · obtain rfl := Option.some.inj hread
    cases hitems : below.2 with
    | nil => exact h.entry (fun _ heq => nomatch heq) fun _ heq => nomatch heq
    | cons v items =>
        refine h.entry (fun _ heq => nomatch heq) fun items' heq => ?_
        obtain rfl := Yaml.seq.inj heq
        exact ⟨List.cons_ne_nil _ _, fun v' hv' => h.items v' (hitems ▸ hv')⟩
  · split at hread
    · obtain ⟨v, hv, rfl⟩ := Option.map_eq_some_iff.mp hread
      refine h.entry (fun s heq => ?_) fun items heq => ?_
      · subst heq
        obtain rfl := plainValue_str hv
        exact hv
      · subst heq
        rw [plainValue] at hv
        split at hv
        · split at hv <;> cases hv
        · cases hv
    · cases hread
  · cases hread

theorem Faithful.readLine {below after : Below} (h : Faithful below) {line : Text}
    (hread : readLine line below = some after) : Faithful after := by
  unfold Wheel.readLine at hread
  split at hread
  · exact Option.some.inj hread ▸ h
  · split at hread
    · obtain ⟨v, hv, rfl⟩ := Option.map_eq_some_iff.mp hread
      exact ⟨h.texts, h.lists, List.forall_mem_cons.mpr ⟨plainItem_string hv, h.items⟩⟩
    · obtain ⟨parts, -, hread⟩ := Option.bind_eq_some_iff.mp hread
      exact h.readEntry hread

theorem faithful_readLines {lines : List Text} {below : Below} (h : readLines lines = some below) :
    Faithful below := by
  induction lines generalizing below with
  | nil =>
      obtain rfl := Option.some.inj h
      exact ⟨List.forall_mem_nil _, List.forall_mem_nil _, List.forall_mem_nil _⟩
  | cons line rest ih =>
      obtain ⟨after, hafter, h⟩ := Option.bind_eq_some_iff.mp h
      exact (ih hafter).readLine h

theorem faithful_plainParse {raw : Text} {m : List (Text × Yaml)} (h : plainParse raw = some (.map m)) :
    Faithful (m, []) := by
  unfold plainParse at h
  split at h
  case h_1 entries hread =>
    obtain rfl := Yaml.map.inj (Option.some.inj h)
    exact faithful_readLines hread
  case h_2 => cases h

theorem readsManifests_plain : ReadsManifests plainParse plainValue plainItem where
  entries := by
    intro raw fields deps _ hnames hvalues hitems
    refine ⟨_, plainParse_manifestText raw hnames hvalues hitems, fun f hf => ?_, ?_⟩
    · obtain ⟨v, hv⟩ := Option.isSome_iff_exists.mp (hvalues f hf)
      have hnodup : ((fields.map fun f => (js f.1, (plainValue f.2).getD .null)).map Prod.fst).Nodup := by
        rw [List.map_map, show (Prod.fst ∘ fun f : String × Text => (js f.1, (plainValue f.2).getD Yaml.null)) =
          js ∘ Prod.fst from rfl, ← List.map_map, hnames]
        decide
      have hmem : (js f.1, v) ∈ fields.map fun f => (js f.1, (plainValue f.2).getD .null) :=
        List.mem_map.mpr ⟨f, hf, by rw [hv]; rfl⟩
      rw [Dict.get?_append, Dict.get?_of_mem hnodup hmem, hv]
      rfl
    · have hnone : Dict.get? (fields.map fun f => (js f.1, (plainValue f.2).getD .null)) (js "runtime_deps") = none := by
        rw [Option.eq_none_iff_forall_ne_some]
        intro v hv
        obtain ⟨f, hf, heq⟩ := List.mem_map.mp (Dict.mem_of_get? hv)
        have hapart : ∀ name ∈ fieldNames, js name ≠ js "runtime_deps" := by decide
        exact hapart f.1 (hnames ▸ List.mem_map_of_mem hf) (Prod.mk.inj heq).1
      rw [Dict.get?_append, hnone, Option.none_or, depEntries]
      cases deps.bind (listed plainItem) with
      | none => rfl
      | some v => rfl
  back := by
    intro raw fields deps m asked _ _ _ hparse hfields hdeps
    have hfaithful := faithful_plainParse hparse
    exact ⟨fun f hf hasked => hfaithful.texts _ (Dict.mem_of_get? (hfields f hf hasked)) _ rfl,
      fun ds hds => hfaithful.lists _ (Dict.mem_of_get? (hdeps ds hds)) _ rfl⟩
  digest := by
    intro t hne hhex
    have hplain : ∀ u ∈ js "0123456789abcdef", isAlphanumeric u = true := List.all_eq_true.mp (by decide)
    refine plainValue_isSome (Bool.and_eq_true_iff.mpr ⟨?_, List.all_eq_true.mpr fun u hu => ?_⟩)
    · cases t with
      | nil => exact absurd rfl hne
      | cons u rest => exact hplain u (hhex u List.mem_cons_self)
    · rw [hplain u (hhex u hu), Bool.true_or]
  constants := by decide
  fallbacks := by
    intro f hf
    simp only [fallbacks, List.mem_cons, List.not_mem_nil, or_false] at hf
    obtain rfl | rfl | rfl := hf <;> rfl

theorem readsBack_plain {carry : WheelCarry} {raw : Text} {m : List (Text × Yaml)} (h : plainParse raw = some (.map m))
    (hversion : plainValue carry.toVersion = some (.str carry.toVersion)) :
    ReadsBack carry ⟨raw, .map m⟩ plainValue plainItem := by
  have hfaithful := faithful_plainParse h
  refine ⟨hversion, fun f _ s hs => ?_, fun deps hdeps => ?_⟩
  · exact hfaithful.texts _ (Dict.mem_of_get? (string_map.mp hs)) s rfl
  · exact hfaithful.lists _ (Dict.mem_of_get? (deps_map.mp hdeps)) deps rfl

/-! ### A release -/

def releaseDigest : Text := js "87ef5ba0ea0662c1efdd59fa6744ba1ec479bf366f73b7ee0df07856aa8c4736"

theorem releaseDigest_hex : releaseDigest ≠ [] ∧ ∀ u ∈ releaseDigest, u ∈ js "0123456789abcdef" := by
  have hall : (releaseDigest.all fun u => (js "0123456789abcdef").contains u) = true := by decide
  exact ⟨by decide, fun u hu => List.contains_iff_mem.mp (List.all_eq_true.mp hall u hu)⟩

/-- The content of a file is its text. -/
def plainHost : Host { t : Text // isWellFormed t = true } where
  text := Subtype.val
  ofText t := ⟨toWellFormed t, isWellFormed_toWellFormed t⟩
  sha256 _ := releaseDigest
  parse := plainParse
  cwd := [js "srv"]
  kbDir := [js "srv", js "kb"]
  modified := js "2026-07-17"

theorem isSound_plainHost : plainHost.IsSound where
  text_wellFormed := Subtype.property
  text_ofText _ := rfl
  sha256_hex _ := releaseDigest_hex

def releaseFields : List (String × Text) :=
  [("package", js "contextlayer-snapshot"), ("version", js "0.3.0"),
    ("wheel", js "contextlayer_snapshot-0.3.0-py3-none-any.whl"), ("sha256", js "aaaa"),
    ("platform_commit", js "0000000"), ("built", js "2026-07-01"), ("built_by", js "seed"),
    ("source", js "platform repo"), ("runtime_deps_pinned_in", js "this file (runtime_deps)")]

def releaseDeps : Option (List Text) := some [js "jsonschema==4.26.0", js "PyYAML==6.0.3"]

/-- The manifest of the release before. -/
def releaseText : Text :=
  manifestText (js "# Provenance for the vendored validation library.\n") releaseFields releaseDeps

def releaseManifest : Manifest :=
  ⟨releaseText, .map ((releaseFields.map fun f => (js f.1, (plainValue f.2).getD .null)) ++ depEntries releaseDeps)⟩

theorem isWellFormed_releaseText : isWellFormed releaseText = true := by decide +kernel

theorem plainParse_releaseText : plainParse releaseText = some releaseManifest.fields := by
  have hitems : ∀ ds ∈ releaseDeps, ∀ dep ∈ ds, (plainItem dep).isSome = true := by
    intro ds hds
    obtain rfl := Option.some.inj hds
    decide
  exact plainParse_manifestText _ rfl (by decide) hitems

def wheelName (version : Text) : Text := js "contextlayer_snapshot-" ++ version ++ js "-py3-none-any.whl"

example : wheelName (js "1.10") = js "contextlayer_snapshot-1.10-py3-none-any.whl" := by decide +kernel

def releaseConfig (version : Text) : SyncConfig :=
  ⟨some (js "/srv/dist/" ++ wheelName version), some version, some (js "cafe1234"), some (js "2026-07-17")⟩

def releaseCarry (version : Text) : WheelCarry :=
  ⟨some (js "0.3.0"), version, wheelName version, some (wheelName (js "0.3.0"))⟩

def releaseFiles (version : Text) : Files { t : Text // isWellFormed t = true } := fun path =>
  if path = manifestPath plainHost then some ⟨releaseText, isWellFormed_releaseText⟩
  else if path = [js "srv", js "dist", wheelName version] then some ⟨js "new-wheel-bytes", by decide⟩
  else if path = vendorDir plainHost ++ [wheelName (js "0.3.0")] then some ⟨js "old-wheel", by decide⟩
  else none

theorem readManifest_releaseFiles (version : Text) :
    readManifest plainHost (releaseFiles version) = some releaseManifest := by
  have hfile : releaseFiles version (manifestPath plainHost) = some ⟨releaseText, isWellFormed_releaseText⟩ := if_pos rfl
  have hparse : plainHost.parse (plainHost.text ⟨releaseText, isWellFormed_releaseText⟩) =
      some releaseManifest.fields := plainParse_releaseText
  simp only [readManifest, hfile, Option.bind_eq_bind, Option.bind_some, hparse]
  rfl

theorem isMapping_release : IsMapping (plainHost.parse releaseManifest.raw) := ⟨_, plainParse_releaseText⟩

theorem planWheelCarry_release {version : Text} (h : version ∈ [js "0.4.0", js "1.10"]) :
    planWheelCarry plainHost (releaseConfig version) (releaseFiles version) = some (releaseCarry version) := by
  unfold planWheelCarry
  rw [readManifest_releaseFiles]
  simp only [List.mem_cons, List.not_mem_nil, or_false] at h
  obtain rfl | rfl := h <;> decide +kernel

theorem separate_release {version : Text} (h : version ∈ [js "0.4.0", js "1.10"]) :
    Separate plainHost (releaseConfig version) (releaseCarry version) releaseManifest (releaseFiles version) := by
  simp only [List.mem_cons, List.not_mem_nil, or_false] at h
  constructor
  · refine ⟨js "/srv/dist/" ++ wheelName version, rfl, ?_, ?_, ?_⟩ <;> obtain rfl | rfl := h <;> decide +kernel
  · obtain rfl | rfl := h <;> decide +kernel
  · obtain rfl | rfl := h <;> decide +kernel
  · obtain rfl | rfl := h <;> decide +kernel
  · intro deps hdeps
    cases hdeps
    decide
  · obtain rfl | rfl := h <;> decide +kernel

theorem legible_release : Legible plainHost (releaseConfig (js "0.4.0")) (releaseCarry (js "0.4.0")) plainValue where
  wheel := by decide
  commit commit h := by
    obtain rfl := Option.some.inj h
    decide
  built := by decide

theorem carry_converges_release :
    Converges plainHost (releaseConfig (js "0.4.0")) (releaseCarry (js "0.4.0")) releaseManifest
      (releaseFiles (js "0.4.0")) :=
  (carry_converges_iff isSound_plainHost readsManifests_plain (readManifest_releaseFiles _) isMapping_release
    (planWheelCarry_release List.mem_cons_self)).1
    ⟨separate_release List.mem_cons_self, legible_release, readsBack_plain plainParse_releaseText rfl⟩

/-- The version is read as the number 1.1. -/
theorem not_converges_trailingZero :
    ¬ Converges plainHost (releaseConfig (js "1.10")) (releaseCarry (js "1.10")) releaseManifest
      (releaseFiles (js "1.10")) := by
  intro h
  have hversion : js "1.10" ∈ [js "0.4.0", js "1.10"] := List.mem_cons_of_mem _ List.mem_cons_self
  have hback := readsBack_of_converges isSound_plainHost readsManifests_plain (readManifest_releaseFiles _)
    isMapping_release (planWheelCarry_release hversion) (separate_release hversion) h
  exact nomatch hback.version

end ContextLayer.Wheel
