import ControlDB.Collector.App

/-!
# API keys

The rows of organizations, projects and keys, `Database._bootstrap`, which writes them when the collector
starts, and `current_principal` of `auth.py`.  Only a start writes a key.  A key that was stored keeps the
tenant of the start that stored it, whatever the settings of later starts are (`bearer_principal`), and
settings the collector once started with start it again (`restart_idle`).
-/

namespace ControlDB
namespace Collector

open Library Python Http

/-! ## Rows -/

structure Organization where
  orgId : String
  name : String

structure Project where
  projectId : String
  orgId : String
  name : String

structure ApiKey where
  keyId : String
  apiKeyHash : String
  orgId : String
  projectId : String
  name : String
  scopes : List (String × String)
  revokedAt : Option DateTime := none

/-- The primary key and the unique column of `api_keys`. -/
def KeysDistinct (rows : List ApiKey) : Prop :=
  (rows.map ApiKey.keyId).Nodup ∧ (rows.map ApiKey.apiKeyHash).Nodup

instance (rows : List ApiKey) : Decidable (KeysDistinct rows) :=
  inferInstanceAs (Decidable (_ ∧ _))

theorem keysDistinct_nil : KeysDistinct [] :=
  ⟨List.nodup_nil, List.nodup_nil⟩

theorem keysDistinct_singleton (row : ApiKey) : KeysDistinct [row] :=
  ⟨List.nodup_singleton _, List.nodup_singleton _⟩

structure Accounts where
  organizations : SortedMap String Organization := .empty
  projects : SortedMap String Project := .empty
  apiKeys : List ApiKey := []
  distinct : KeysDistinct apiKeys := by exact keysDistinct_nil

/-! ## Settings -/

/-- What `str.strip` takes away. -/
def isSpace (c : Char) : Bool :=
  decide (c.toNat ∈ [9, 10, 11, 12, 13, 28, 29, 30, 31, 32, 133, 160, 5760, 8192, 8193, 8194, 8195, 8196,
    8197, 8198, 8199, 8200, 8201, 8202, 8232, 8233, 8239, 8287, 12288])

def strip (text : List Char) : List Char :=
  ((text.dropWhile isSpace).reverse.dropWhile isSpace).reverse

/-- `_split` of `config.py`. -/
def splitSetting (value : String) : List String :=
  (((value.toList.splitOn ',').map strip).filter fun key => !key.isEmpty).map String.ofList

/-- The settings that `_bootstrap` reads. -/
structure Settings where
  bootstrapApiKeys : List String
  bootstrapOrgId : String
  bootstrapProjectId : String
  deriving DecidableEq

def Settings.ofEnviron (environ : String → Option String) : Settings where
  bootstrapApiKeys := splitSetting ((environ "CONTROLDB_BOOTSTRAP_API_KEYS").getD "test-key")
  bootstrapOrgId := (environ "CONTROLDB_BOOTSTRAP_ORG_ID").getD "org_default"
  bootstrapProjectId := (environ "CONTROLDB_BOOTSTRAP_PROJECT_ID").getD "proj_default"

/-! ## `_bootstrap` -/

/-- `_hash_key` of `auth.py` and `_sha256` of `db.py`. -/
def hashKey (sha256 : Sha256) (key : String) : String :=
  String.ofList (hexdigest (sha256 (encodeUtf8 key.toList)))

def bootstrapScopes : List (String × String) :=
  [("runs", "write"), ("events", "write"), ("policies", "read"), ("approvals", "review"),
    ("exports", "create")]

def bootstrapKey (s : Settings) (keyHash : String) : ApiKey :=
  { keyId := "key_" ++ String.ofList (keyHash.toList.take 12)
    apiKeyHash := keyHash
    orgId := s.bootstrapOrgId
    projectId := s.bootstrapProjectId
    name := "bootstrap"
    scopes := bootstrapScopes }

section Bootstrap

variable (sha256 : Sha256)

def Settings.hashes (s : Settings) : List String :=
  s.bootstrapApiKeys.map (hashKey sha256)

/-- The rows that are added; `existing_keys` is read before the first of them. -/
def newKeys (s : Settings) (acc : Accounts) : List ApiKey :=
  let existing := acc.apiKeys.map ApiKey.apiKeyHash
  ((s.hashes sha256).filter fun keyHash => decide (keyHash ∉ existing)).map (bootstrapKey s)

/-- Two rows that clash raise in the flush, and the transaction is rolled back. -/
def bootstrap (s : Settings) (acc : Accounts) : Except PyError Accounts :=
  let organizations :=
    if (acc.organizations.get s.bootstrapOrgId).isSome then acc.organizations
    else acc.organizations.put s.bootstrapOrgId ⟨s.bootstrapOrgId, "Default Org"⟩
  let projects :=
    if (acc.projects.get s.bootstrapProjectId).isSome then acc.projects
    else acc.projects.put s.bootstrapProjectId
      ⟨s.bootstrapProjectId, s.bootstrapOrgId, "Default Project"⟩
  if hdistinct : KeysDistinct (acc.apiKeys ++ newKeys sha256 s acc) then
    .ok { organizations, projects, apiKeys := acc.apiKeys ++ newKeys sha256 s acc
          distinct := hdistinct }
  else .error .integrity

/-- A start of the collector; one that raises leaves the tables alone. -/
def start (acc : Accounts) (s : Settings) : Accounts :=
  match bootstrap sha256 s acc with
  | .ok acc' => acc'
  | .error _ => acc

/-- The settings of the starts that did not raise. -/
def started : Accounts → List Settings → List Settings
  | _, [] => []
  | acc, s :: rest =>
      match bootstrap sha256 s acc with
      | .ok acc' => s :: started acc' rest
      | .error _ => started acc rest

end Bootstrap

/-! ## `current_principal` -/

/-- `Principal`, with the fields that only the check of a scope reads. -/
structure KeyPrincipal extends Principal where
  keyId : String
  scopes : List (String × String)

def ApiKey.principal (row : ApiKey) : KeyPrincipal :=
  { orgId := row.orgId, projectId := row.projectId, keyId := row.keyId, scopes := row.scopes }

/-- `text.partition(" ")` without the separator. -/
def partitionSpace (text : String) : String × String :=
  (String.ofList (text.toList.takeWhile fun c => c != ' '),
    String.ofList ((text.toList.dropWhile fun c => c != ' ').drop 1))

/-- The row of a key that was presented. -/
def findKey (sha256 : Sha256) (apiKeys : List ApiKey) (token : String) : Option ApiKey :=
  apiKeys.find? fun row => decide (row.apiKeyHash = hashKey sha256 token)

/-- The detail of a 401, or the principal.  No other character has one of the letters of `bearer` as its
lower case. -/
def currentPrincipal (sha256 : Sha256) (apiKeys : List ApiKey) (authorization : Option String) :
    Except String KeyPrincipal :=
  match truthy authorization with
  | none => .error "missing Authorization header"
  | some header =>
      let parts := partitionSpace header
      if parts.1.toLower ≠ "bearer" ∨ parts.2 = "" then .error "invalid Authorization header"
      else
        match findKey sha256 apiKeys parts.2 with
        | none => .error "invalid api key"
        | some row =>
            if row.revokedAt.isSome then .error "invalid api key" else .ok row.principal

/-! ## Starts -/

section Starts

variable {sha256 : Sha256} {s : Settings} {acc acc' : Accounts}

theorem bootstrap_eq_ok (h : bootstrap sha256 s acc = .ok acc') :
    acc'.apiKeys = acc.apiKeys ++ newKeys sha256 s acc ∧
      acc'.organizations = (if (acc.organizations.get s.bootstrapOrgId).isSome then acc.organizations
        else acc.organizations.put s.bootstrapOrgId ⟨s.bootstrapOrgId, "Default Org"⟩) ∧
      acc'.projects = (if (acc.projects.get s.bootstrapProjectId).isSome then acc.projects
        else acc.projects.put s.bootstrapProjectId
          ⟨s.bootstrapProjectId, s.bootstrapOrgId, "Default Project"⟩) := by
  by_cases hdistinct : KeysDistinct (acc.apiKeys ++ newKeys sha256 s acc)
  · rw [bootstrap, dif_pos hdistinct] at h
    cases h
    exact ⟨rfl, rfl, rfl⟩
  · rw [bootstrap, dif_neg hdistinct] at h
    cases h

theorem hash_newKeys {row : ApiKey} (h : row ∈ newKeys sha256 s acc) :
    row = bootstrapKey s row.apiKeyHash ∧ row.apiKeyHash ∈ s.hashes sha256 ∧
      row.apiKeyHash ∉ acc.apiKeys.map ApiKey.apiKeyHash := by
  rcases List.mem_map.1 h with ⟨keyHash, hkey, rfl⟩
  rcases List.mem_filter.1 hkey with ⟨hlisted, hnew⟩
  exact ⟨rfl, hlisted, of_decide_eq_true hnew⟩

/-- A hash has the row it had, or a row of this start. -/
theorem find_bootstrap (h : bootstrap sha256 s acc = .ok acc') (keyHash : String) :
    (acc'.apiKeys.find? fun row => decide (row.apiKeyHash = keyHash)) =
      (acc.apiKeys.find? fun row => decide (row.apiKeyHash = keyHash)).or
        (if keyHash ∈ s.hashes sha256 then some (bootstrapKey s keyHash) else none) := by
  rw [(bootstrap_eq_ok h).1, List.find?_append]
  cases hold : acc.apiKeys.find? fun row => decide (row.apiKeyHash = keyHash) with
  | some row => rfl
  | none =>
      have hmissing : keyHash ∉ acc.apiKeys.map ApiKey.apiKeyHash := by
        intro hmem
        rcases List.mem_map.1 hmem with ⟨row, hrow, hhash⟩
        have hnot := List.find?_eq_none.1 hold row hrow
        simp [hhash] at hnot
      rw [Option.none_or, Option.none_or]
      cases hfind : (newKeys sha256 s acc).find? fun row => decide (row.apiKeyHash = keyHash) with
      | some row =>
          have hhash : row.apiKeyHash = keyHash := by simpa using List.find?_some hfind
          rcases hash_newKeys (List.mem_of_find?_eq_some hfind) with ⟨hrow, hlisted, _⟩
          rw [hhash] at hrow hlisted
          rw [if_pos hlisted, hrow]
      | none =>
          rw [if_neg]
          intro hlisted
          have hadded : bootstrapKey s keyHash ∈ newKeys sha256 s acc :=
            List.mem_map_of_mem (List.mem_filter.2 ⟨hlisted, decide_eq_true hmissing⟩)
          have hnot := List.find?_eq_none.1 hfind _ hadded
          simp [bootstrapKey] at hnot

/-- Run lemma: the row of a hash is that of the first start that listed a key of this hash. -/
theorem find_starts (acc : Accounts) (history : List Settings) (keyHash : String) :
    ((history.foldl (start sha256) acc).apiKeys.find? fun row => decide (row.apiKeyHash = keyHash)) =
      (acc.apiKeys.find? fun row => decide (row.apiKeyHash = keyHash)).or
        (((started sha256 acc history).find? fun s => decide (keyHash ∈ s.hashes sha256)).map
          fun s => bootstrapKey s keyHash) := by
  induction history generalizing acc with
  | nil => simp [started]
  | cons s rest ih =>
      rw [List.foldl_cons, ih, start, started]
      cases hboot : bootstrap sha256 s acc with
      | error e => rfl
      | ok acc' =>
          dsimp only
          rw [find_bootstrap hboot, Option.or_assoc, List.find?_cons]
          by_cases hlisted : keyHash ∈ s.hashes sha256
          · simp [hlisted]
          · simp [hlisted]

end Starts

/-! ## Headers -/

section Headers

variable {sha256 : Sha256} {apiKeys : List ApiKey}

theorem partitionSpace_append {scheme : String} (token : String) (h : ' ' ∉ scheme.toList) :
    partitionSpace (scheme ++ " " ++ token) = (scheme, token) := by
  have hall : ∀ c ∈ scheme.toList, (c != ' ') = true := by
    intro c hc
    exact bne_iff_ne.2 fun heq => h (heq ▸ hc)
  have htext : (scheme ++ " " ++ token).toList = scheme.toList ++ ' ' :: token.toList := by
    simp
  unfold partitionSpace
  rw [htext, List.takeWhile_append_of_pos hall, List.dropWhile_append_of_pos hall]
  simp

/-- A text with a part behind a space is made of its two parts. -/
theorem partitionSpace_text {text : String} (h : (partitionSpace text).2 ≠ "") :
    text = (partitionSpace text).1 ++ " " ++ (partitionSpace text).2 := by
  have hparts := List.takeWhile_append_dropWhile (p := fun c : Char => c != ' ') (l := text.toList)
  apply String.toList_inj.1
  unfold partitionSpace at h ⊢
  cases hrest : text.toList.dropWhile fun c => c != ' ' with
  | nil => simp [hrest] at h
  | cons c rest =>
      have hspace : c = ' ' := by
        have hhead := List.head?_dropWhile_not (fun c : Char => c != ' ') text.toList
        simpa [hrest] using hhead
      rw [hrest, hspace] at hparts
      simpa using hparts.symm

theorem space_notMem_of_toLower {scheme : String} (h : scheme.toLower = "bearer") :
    ' ' ∉ scheme.toList := by
  intro hspace
  have hlower : (' ').toLower ∈ scheme.toLower.toList := by
    rw [String.toLower, String.toList_map]
    exact List.mem_map_of_mem hspace
  rw [h] at hlower
  exact absurd hlower (by decide)

/-- Exactly the holders of a key that is not revoked are let in. -/
theorem currentPrincipal_eq_ok_iff {authorization : Option String} {p : KeyPrincipal} :
    currentPrincipal sha256 apiKeys authorization = .ok p ↔
      ∃ scheme token row, authorization = some (scheme ++ " " ++ token) ∧ scheme.toLower = "bearer" ∧
        token ≠ "" ∧ findKey sha256 apiKeys token = some row ∧ row.revokedAt = none ∧
        p = row.principal := by
  constructor
  · intro h
    unfold currentPrincipal at h
    cases htruthy : truthy authorization with
    | none => simp [htruthy] at h
    | some header =>
        have hheader : authorization = some header := by
          cases authorization with
          | none => simp [truthy] at htruthy
          | some text =>
              simp only [truthy] at htruthy
              split_ifs at htruthy
              exact htruthy
        simp only [htruthy] at h
        split_ifs at h with hinvalid
        rcases not_or.1 hinvalid with ⟨hscheme, htoken⟩
        cases hfind : findKey sha256 apiKeys (partitionSpace header).2 with
        | none => simp [hfind] at h
        | some row =>
            simp only [hfind] at h
            split_ifs at h with hrevoked
            refine ⟨_, _, row, ?_, not_not.1 hscheme, htoken, hfind, by simpa using hrevoked,
              (Except.ok.inj h).symm⟩
            rw [hheader, ← partitionSpace_text htoken]
  · rintro ⟨scheme, token, row, rfl, hscheme, htoken, hfind, hrevoked, rfl⟩
    have hparts := partitionSpace_append token (space_notMem_of_toLower hscheme)
    have hne : scheme ++ " " ++ token ≠ "" := by
      intro hempty
      simpa using congrArg String.toList hempty
    have htruthy : truthy (some (scheme ++ " " ++ token)) = some (scheme ++ " " ++ token) := if_neg hne
    simp [currentPrincipal, htruthy, hparts, hscheme, htoken, hfind, hrevoked]

/-- A header with an unknown or revoked key. -/
theorem currentPrincipal_eq_error {scheme token : String} (hscheme : scheme.toLower = "bearer")
    (htoken : token ≠ "")
    (hnot : ∀ row, findKey sha256 apiKeys token = some row → row.revokedAt ≠ none) :
    currentPrincipal sha256 apiKeys (some (scheme ++ " " ++ token)) = .error "invalid api key" := by
  have hparts := partitionSpace_append token (space_notMem_of_toLower hscheme)
  have hne : scheme ++ " " ++ token ≠ "" := by
    intro hempty
    simpa using congrArg String.toList hempty
  have htruthy : truthy (some (scheme ++ " " ++ token)) = some (scheme ++ " " ++ token) := if_neg hne
  cases hfind : findKey sha256 apiKeys token with
  | none => simp [currentPrincipal, htruthy, hparts, hscheme, htoken, hfind]
  | some row =>
      have hrevoked : row.revokedAt.isSome := Option.isSome_iff_ne_none.2 (hnot row hfind)
      simp [currentPrincipal, htruthy, hparts, hscheme, htoken, hfind, hrevoked]

end Headers

/-! ## Keys over restarts -/

/-- Whoever presents a key acts for the organization and project of the first start that listed it and
did not raise, and with the scopes of that start; nobody else is let in. -/
theorem bearer_principal (sha256 : Sha256) (history : List Settings) (scheme token : String)
    (hscheme : scheme.toLower = "bearer") (htoken : token ≠ "") :
    currentPrincipal sha256 (history.foldl (start sha256) {}).apiKeys
        (some (scheme ++ " " ++ token)) =
      ((started sha256 {} history).find? fun s => decide (hashKey sha256 token ∈ s.hashes sha256)).elim
        (.error "invalid api key")
        fun s => .ok (bootstrapKey s (hashKey sha256 token)).principal := by
  have hfind := @find_starts sha256 {} history (hashKey sha256 token)
  rw [List.find?_nil, Option.none_or] at hfind
  cases hfirst : (started sha256 {} history).find?
      fun s => decide (hashKey sha256 token ∈ s.hashes sha256) with
  | none =>
      apply currentPrincipal_eq_error hscheme htoken
      intro row hrow
      rw [findKey, hfind, hfirst] at hrow
      cases hrow
  | some s =>
      refine currentPrincipal_eq_ok_iff.2
        ⟨scheme, token, bootstrapKey s (hashKey sha256 token), rfl, hscheme, htoken, ?_, rfl, rfl⟩
      rw [findKey, hfind, hfirst]
      rfl

namespace AuthExample

/-- The digest of `test-key`; that of every other text is left open. -/
def sha256 : Sha256 := fun data =>
  if data = [116, 101, 115, 116, 45, 107, 101, 121] then
    #v[98, 175, 135, 4, 118, 79, 175, 142, 168, 47, 198, 28, 233, 196, 195, 144,
      139, 108, 185, 125, 70, 58, 99, 78, 158, 88, 125, 124, 136, 93, 176, 239]
  else Vector.replicate 32 0

def settings : Settings := ⟨["test-key"], "org_default", "proj_default"⟩

/-- The settings of another organization, with the same key. -/
def moved : Settings := ⟨["test-key"], "org_other", "proj_default"⟩

end AuthExample

theorem bearer_principal_moved :
    currentPrincipal AuthExample.sha256
        ([AuthExample.settings, AuthExample.moved].foldl (start AuthExample.sha256) {}).apiKeys
        (some ("Bearer" ++ " " ++ "test-key")) =
      ((started AuthExample.sha256 {} [AuthExample.settings, AuthExample.moved]).find? fun s =>
        decide (hashKey AuthExample.sha256 "test-key" ∈ s.hashes AuthExample.sha256)).elim
        (.error "invalid api key")
        fun s => .ok (bootstrapKey s (hashKey AuthExample.sha256 "test-key")).principal :=
  bearer_principal AuthExample.sha256 [AuthExample.settings, AuthExample.moved] "Bearer" "test-key"
    (by decide +kernel) (by decide)

/-! ## Starting again -/

/-- Everything that a start with these settings would write is there. -/
structure Covers (sha256 : Sha256) (s : Settings) (acc : Accounts) : Prop where
  organization : (acc.organizations.get s.bootstrapOrgId).isSome
  project : (acc.projects.get s.bootstrapProjectId).isSome
  keys : ∀ keyHash ∈ s.hashes sha256, keyHash ∈ acc.apiKeys.map ApiKey.apiKeyHash

section Again

variable {sha256 : Sha256} {s t : Settings} {acc acc' : Accounts}

theorem isSome_get_opened {V : Type} {rows : SortedMap String V} {k k' : String} {row : V}
    (h : (rows.get k).isSome ∨ k = k') :
    ((if (rows.get k').isSome then rows else rows.put k' row).get k).isSome := by
  by_cases hthere : (rows.get k').isSome
  · rw [if_pos hthere]
    exact h.elim id fun heq => heq ▸ hthere
  · rw [if_neg hthere, SortedMap.get_put]
    split_ifs with heq
    · rfl
    · exact h.resolve_right heq

theorem covers_bootstrap (h : bootstrap sha256 s acc = .ok acc') : Covers sha256 s acc' := by
  rcases bootstrap_eq_ok h with ⟨hkeys, horganizations, hprojects⟩
  refine ⟨?_, ?_, ?_⟩
  · rw [horganizations]
    exact isSome_get_opened (.inr rfl)
  · rw [hprojects]
    exact isSome_get_opened (.inr rfl)
  · intro keyHash hlisted
    rw [hkeys, List.map_append, List.mem_append]
    by_cases hold : keyHash ∈ acc.apiKeys.map ApiKey.apiKeyHash
    · exact .inl hold
    · refine .inr (List.mem_map.2 ⟨bootstrapKey s keyHash, ?_, rfl⟩)
      exact List.mem_map_of_mem (List.mem_filter.2 ⟨hlisted, decide_eq_true hold⟩)

theorem Covers.start (h : Covers sha256 s acc) : Covers sha256 s (start sha256 acc t) := by
  unfold Collector.start
  cases hboot : bootstrap sha256 t acc with
  | error e => exact h
  | ok acc' =>
      rcases bootstrap_eq_ok hboot with ⟨hkeys, horganizations, hprojects⟩
      refine ⟨?_, ?_, ?_⟩
      · rw [horganizations]
        exact isSome_get_opened (.inl h.organization)
      · rw [hprojects]
        exact isSome_get_opened (.inl h.project)
      · intro keyHash hlisted
        rw [hkeys, List.map_append]
        exact List.mem_append_left _ (h.keys keyHash hlisted)

theorem Covers.bootstrap (h : Covers sha256 s acc) : bootstrap sha256 s acc = .ok acc := by
  have hnone : newKeys sha256 s acc = [] := by
    refine List.map_eq_nil_iff.2 (List.filter_eq_nil_iff.2 ?_)
    intro keyHash hlisted
    simpa using h.keys keyHash hlisted
  have hdistinct : KeysDistinct (acc.apiKeys ++ newKeys sha256 s acc) := by
    rw [hnone, List.append_nil]
    exact acc.distinct
  unfold Collector.bootstrap
  simp only [h.organization, h.project, if_true, dif_pos hdistinct]
  simp [hnone]

/-- Run lemma. -/
theorem covers_starts (acc : Accounts) (history : List Settings)
    (h : Covers sha256 s acc ∨ s ∈ started sha256 acc history) :
    Covers sha256 s (history.foldl (Collector.start sha256) acc) := by
  induction history generalizing acc with
  | nil => exact h.elim id fun hmem => nomatch hmem
  | cons t rest ih =>
      refine ih _ ?_
      rcases h with hcovers | hmem
      · exact .inl hcovers.start
      · rw [started] at hmem
        unfold Collector.start
        cases hboot : Collector.bootstrap sha256 t acc with
        | error e =>
            rw [hboot] at hmem
            exact .inr hmem
        | ok acc' =>
            rw [hboot] at hmem
            rcases List.mem_cons.1 hmem with rfl | hrest
            · exact .inl (covers_bootstrap hboot)
            · exact .inr hrest

end Again

/-- The collector starts again with settings it once started with, whatever it was started with since,
and this start writes nothing. -/
theorem restart_idle (sha256 : Sha256) (history : List Settings) (s : Settings)
    (h : s ∈ started sha256 {} history) :
    bootstrap sha256 s (history.foldl (start sha256) {}) = .ok (history.foldl (start sha256) {}) :=
  (covers_starts {} history (.inr h)).bootstrap

theorem restart_idle_settings :
    bootstrap AuthExample.sha256 AuthExample.settings
        ([AuthExample.settings, AuthExample.moved].foldl (start AuthExample.sha256) {}) =
      .ok ([AuthExample.settings, AuthExample.moved].foldl (start AuthExample.sha256) {}) :=
  restart_idle AuthExample.sha256 [AuthExample.settings, AuthExample.moved] AuthExample.settings
    (by decide +kernel)

end Collector
end ControlDB
