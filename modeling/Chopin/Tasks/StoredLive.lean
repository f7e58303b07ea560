import Chopin.Tasks.Rebuilds
import Chopin.Tasks.Restorable

/-!
# The stored living record

What a sidecar holds of a living build, and the reader that takes it back (`liveSchema` and
`restoreLive` of `tasks/builds.ts`).  The schema checks each field; the reader then checks what no
writer does as a whole, the relations between the record, the builds, the history and the plan.

`LiveBuild.Storable` is what the schema asks of a record, and `liveSchema_toJson` the round trip.
-/

set_option autoImplicit false
set_option linter.dupNamespace false

open Script

namespace Chopin.Tasks

/-! ## What is stored -/

def Checkout.fields (checkout : Checkout) : List (String × Option Json) :=
  [("repository", some (.str checkout.repository)), ("branch", checkout.branch.map .str),
    ("commit", some (.str checkout.commit))]

def Checkout.toJson (checkout : Checkout) : Json := .object checkout.fields

def Commit.fields (commit : Commit) : List (String × Option Json) :=
  [("pullRequest", some (.str commit.pullRequest)), ("sha", some (.str commit.sha)),
    ("message", some (.str commit.message)), ("revision", some (.num commit.revision)),
    ("at", some (.str commit.«at»))]

def Commit.toJson (commit : Commit) : Json := .object commit.fields

def Settlement.fields (settlement : Settlement) : List (String × Option Json) :=
  [("buildId", some (.str settlement.buildId)), ("revision", some (.num settlement.revision)),
    ("summary", some (.str settlement.summary)), ("at", some (.str settlement.«at»))]

def Settlement.toJson (settlement : Settlement) : Json := .object settlement.fields

def Target.fields (target : Target) : List (String × Option Json) :=
  [("buildId", some (.str target.buildId)), ("revision", some (.num target.revision)),
    ("source", some (.str target.source))]

def Target.toJson (target : Target) : Json := .object target.fields

def LiveBuild.fields (live : LiveBuild) : List (String × Option Json) :=
  [("buildId", some (.str live.buildId)), ("user", some (.str live.user)),
    ("repositoryId", some (.str live.repositoryId)), ("checkout", some live.checkout.toJson),
    ("baseRevision", some (.num live.baseRevision)), ("baseSource", some (.str live.baseSource)),
    ("pullRequests", some (.arr (live.pullRequests.map .str))),
    ("commits", live.commits.map fun commits ↦ .arr (commits.map Commit.toJson)),
    ("outstanding", live.outstanding.map fun ids ↦ .arr (ids.map .str)),
    ("noChange", live.noChange.map fun settled ↦ .arr (settled.map Settlement.toJson)),
    ("target", live.target.map Target.toJson)]

def LiveBuild.toJson (live : LiveBuild) : Json := .object live.fields

/-! ## The schema -/

/-- A string with a property, at a key. -/
def readString (accepts : String → Bool) (item : List (String × Json)) (key : String) : Option String :=
  (item.lookup key >>= Json.string).filter accepts

/-- A list of at most so many, at a key that may be left out. -/
def readList {α : Type} (limit : Nat) (read : Json → Option α) (value : Json) : Option (List α) :=
  (value.array >>= fun items ↦ items.mapM read).filter (·.length ≤ limit)

/-- `checkoutSchema`, of what is stored. -/
def checkoutSchema (value : Json) : Option Checkout := do
  let item ← value.strict ["repository", "branch", "commit"]
  let repository ← readString repositoryName item "repository"
  let branch ← (item.lookup "branch") |> Json.optional fun value ↦ value.string.filter (bounded 255)
  let commit ← readString (hex 40 40) item "commit"
  pure { repository, branch, commit }

/-- `z.string().url()` -/
def readAddress (platform : Platform) (value : Json) : Option String :=
  value.string >>= platform.address

def commitSchema (platform : Platform) (value : Json) : Option Commit := do
  let item ← value.strict ["pullRequest", "sha", "message", "revision", "at"]
  let pullRequest ← readAddress platform (← item.lookup "pullRequest")
  let sha ← readString (hex 7 40) item "sha"
  let message ← readString (bounded 500) item "message"
  let revision ← (← item.lookup "revision").safe
  let «at» ← readString platform.datetime item "at"
  pure { pullRequest, sha, message, revision, «at» }

def settlementSchema (platform : Platform) (value : Json) : Option Settlement := do
  let item ← value.strict ["buildId", "revision", "summary", "at"]
  let buildId ← readString platform.uuid item "buildId"
  let revision ← (← item.lookup "revision").safe
  let summary ← readString (bounded 2000) item "summary"
  let «at» ← readString platform.datetime item "at"
  pure { buildId, revision, summary, «at» }

def targetSchema (platform : Platform) (value : Json) : Option Target := do
  let item ← value.strict ["buildId", "revision", "source"]
  let buildId ← readString platform.uuid item "buildId"
  let revision ← (← item.lookup "revision").safe
  let source ← readString (fun _ ↦ true) item "source"
  pure { buildId, revision, source }

def liveSchema (platform : Platform) (value : Json) : Option LiveBuild := do
  let item ← value.strict ["buildId", "user", "repositoryId", "checkout", "baseRevision",
    "baseSource", "pullRequests", "commits", "outstanding", "noChange", "target"]
  let buildId ← readString platform.uuid item "buildId"
  let user ← readString (bounded 128) item "user"
  let repositoryId ← readString (bounded 128) item "repositoryId"
  let checkout ← checkoutSchema (← item.lookup "checkout")
  let baseRevision ← (← item.lookup "baseRevision").safe
  let baseSource ← readString (fun _ ↦ true) item "baseSource"
  let pullRequests ← readList 100 (readAddress platform) (← item.lookup "pullRequests")
  let commits ← (item.lookup "commits") |> Json.optional (readList 200 (commitSchema platform))
  let outstanding ← (item.lookup "outstanding") |> Json.optional fun value ↦
    (readList 100 (·.string.filter (bounded 128)) value).filter (1 ≤ ·.length)
  let noChange ← (item.lookup "noChange") |> Json.optional (readList 50 (settlementSchema platform))
  let target ← (item.lookup "target") |> Json.optional (targetSchema platform)
  pure { buildId, user, repositoryId, checkout, baseRevision, baseSource, pullRequests, commits
         outstanding, noChange, target }

/-! ## The reader -/

/-- The run the record names was delivered. -/
def deliveredIn (graph : Option Graph) (lifecycle : Option Lifecycle) (buildId : String) : Bool :=
  match graph, lifecycle with
  | some graph, some lifecycle =>
    match (historyFor graph lifecycle).find? (·.run.id == buildId) with
    | some item => item.outcome.successful
    | none => false
  | _, _ => false

/-- The relations a living record must hold to the rest of the document. -/
def LiveBuild.related (live : LiveBuild) (builds : List BuildRequest) (lifecycle : Option Lifecycle)
    (graph : Option Graph) (revision : Nat) : Bool :=
  match builds.find? (·.id == live.buildId) with
  | none => false
  | some build =>
    build.user == live.user && build.repositoryId == live.repositoryId
      && build.checkout.repository == live.checkout.repository
      && build.checkout.branch == live.checkout.branch
      && build.checkout.commit == live.checkout.commit
      && (((lifecycle.map Lifecycle.history).getD []).any
            (fun item ↦ item.run.id == live.buildId && item.live)
          || deliveredIn graph lifecycle live.buildId)
      && live.baseRevision ≤ revision
      && decide live.pullRequests.Nodup
      && (live.commits.getD []).all (fun commit ↦ live.pullRequests.contains commit.pullRequest)
      && live.target.all fun target ↦ target.revision ≤ revision && live.baseRevision ≤ target.revision
        && builds.any fun item ↦ item.id == target.buildId && item.rebuild.isSome

/-- Restore a live record only when it names a finished build of this document. -/
def restoreLive (platform : Platform) (value : Json) (builds : List BuildRequest)
    (lifecycle : Option Lifecycle) (graph : Option Graph) (revision : Nat) : Option LiveBuild :=
  (liveSchema platform value).filter (·.related builds lifecycle graph revision)

/-! ## Records that the schema takes -/

structure Commit.Storable (platform : Platform) (commit : Commit) : Prop where
  pullRequest : platform.address commit.pullRequest = some commit.pullRequest
  sha : hex 7 40 commit.sha = true
  message : bounded 500 commit.message = true
  revision : commit.revision ≤ Json.maxSafe
  «at» : platform.datetime commit.«at» = true

structure Settlement.Storable (platform : Platform) (settlement : Settlement) : Prop where
  buildId : platform.uuid settlement.buildId = true
  revision : settlement.revision ≤ Json.maxSafe
  summary : bounded 2000 settlement.summary = true
  «at» : platform.datetime settlement.«at» = true

structure LiveBuild.Storable (platform : Platform) (live : LiveBuild) : Prop where
  buildId : platform.uuid live.buildId = true
  user : bounded 128 live.user = true
  repositoryId : bounded 128 live.repositoryId = true
  checkout : live.checkout.valid = true
  baseRevision : live.baseRevision ≤ Json.maxSafe
  addresses : ∀ url ∈ live.pullRequests, platform.address url = some url
  requests : live.pullRequests.length ≤ 100
  commits : ∀ commits ∈ live.commits, commits.length ≤ 200 ∧
    ∀ commit ∈ commits, commit.Storable platform
  outstanding : ∀ ids ∈ live.outstanding, ids ≠ [] ∧ ids.length ≤ 100 ∧
    ∀ id ∈ ids, bounded 128 id = true
  noChange : ∀ settled ∈ live.noChange, settled.length ≤ 50 ∧
    ∀ settlement ∈ settled, settlement.Storable platform
  target : ∀ target ∈ live.target, platform.uuid target.buildId = true ∧
    target.revision ≤ Json.maxSafe

variable {key : String}

variable {item : List (String × Json)}

variable {accepts : String → Bool} {value : String}

theorem readString_eq (hlookup : item.lookup key = some (.str value)) (haccepts : accepts value = true) :
    readString accepts item key = some value := by
  rw [readString, hlookup, Option.some_then, Json.string_str, Option.filter_some,
    if_pos haccepts]

theorem readString_any
    (hlookup : item.lookup key = some (.str value)) : readString (fun _ ↦ true) item key = some value :=
  readString_eq hlookup rfl

theorem readList_map {α : Type} {limit : Nat} {read : Json → Option α} {write : α → Json}
    {values : List α} (hread : ∀ value ∈ values, read (write value) = some value)
    (hlength : values.length ≤ limit) : readList limit read (.arr (values.map write)) = some values := by
  rw [readList, Json.array_arr, Option.some_then, Json.mapM_map hread,
    Option.filter_some, if_pos (by simpa using hlength)]

variable {checkout : Checkout}

theorem checkoutSchema_toJson (h : checkout.valid = true) : checkoutSchema checkout.toJson = some checkout := by
  simp only [Checkout.valid, Bool.and_eq_true] at h
  obtain ⟨⟨hrepository, hbranch⟩, hcommit⟩ := h
  obtain ⟨item, hitem, hlookup⟩ := Json.object_read checkout.fields (by simp [Checkout.fields])
  have hoptional : Json.optional (fun value ↦ value.string.filter (bounded 255)) (item.lookup "branch") =
      some checkout.branch := by
    rw [hlookup, show (checkout.fields.lookup "branch").join = checkout.branch.map Json.str from rfl]
    refine Json.optional_map fun branch hmem ↦ ?_
    rw [Json.string_str, Option.filter_some, if_pos]
    exact (Option.all_eq_true _ _).1 hbranch branch hmem
  have hread : Json.strict checkout.toJson ["repository", "branch", "commit"] = some item := hitem
  rw [checkoutSchema, hread, Option.some_then,
    readString_eq (hlookup "repository") hrepository]
  simp only [Option.some_then, hoptional,
    readString_eq (hlookup "commit") hcommit, Option.pure_def]

variable {platform : Platform}

theorem readAddress_str {url : String} (h : platform.address url = some url) :
    readAddress platform (.str url) = some url := by
  rw [readAddress, Json.string_str, Option.some_then, h]

theorem commitSchema_toJson {commit : Commit} (h : commit.Storable platform) :
    commitSchema platform commit.toJson = some commit := by
  obtain ⟨item, hitem, hlookup⟩ := Json.object_read commit.fields (by simp [Commit.fields])
  have hread : Json.strict commit.toJson ["pullRequest", "sha", "message", "revision", "at"] =
      some item := hitem
  have hrequest : item.lookup "pullRequest" = some (.str commit.pullRequest) := hlookup _
  have hrevision : item.lookup "revision" = some (.num commit.revision) := hlookup _
  rw [commitSchema, hread, Option.some_then, hrequest]
  simp only [Option.some_then, readAddress_str h.pullRequest,
    readString_eq (hlookup "sha") h.sha, readString_eq (hlookup "message") h.message, hrevision,
    Json.safe_num h.revision, readString_eq (hlookup "at") h.at, Option.pure_def]

variable {settlement : Settlement}

theorem settlementSchema_toJson (h : settlement.Storable platform) :
    settlementSchema platform settlement.toJson = some settlement := by
  obtain ⟨item, hitem, hlookup⟩ := Json.object_read settlement.fields (by simp [Settlement.fields])
  have hread : Json.strict settlement.toJson ["buildId", "revision", "summary", "at"] = some item :=
    hitem
  have hrevision : item.lookup "revision" = some (.num settlement.revision) := hlookup _
  rw [settlementSchema, hread, Option.some_then,
    readString_eq (hlookup "buildId") h.buildId]
  simp only [Option.some_then, hrevision, Json.safe_num h.revision,
    readString_eq (hlookup "summary") h.summary, readString_eq (hlookup "at") h.at, Option.pure_def]

theorem targetSchema_toJson {target : Target}
    (hid : platform.uuid target.buildId = true) (hrevision : target.revision ≤ Json.maxSafe) :
    targetSchema platform target.toJson = some target := by
  obtain ⟨item, hitem, hlookup⟩ := Json.object_read target.fields (by simp [Target.fields])
  have hread : Json.strict target.toJson ["buildId", "revision", "source"] = some item := hitem
  have hstored : item.lookup "revision" = some (.num target.revision) := hlookup _
  rw [targetSchema, hread, Option.some_then,
    readString_eq (hlookup "buildId") hid]
  simp only [Option.some_then, hstored, Json.safe_num hrevision,
    readString_any (hlookup "source"), Option.pure_def]

variable {live : LiveBuild}

/-- **A storable record is read back as it is.** -/
theorem liveSchema_toJson (h : live.Storable platform) : liveSchema platform live.toJson = some live := by
  obtain ⟨item, hitem, hlookup⟩ := Json.object_read live.fields (by simp [LiveBuild.fields])
  have hread : Json.strict live.toJson ["buildId", "user", "repositoryId", "checkout", "baseRevision",
      "baseSource", "pullRequests", "commits", "outstanding", "noChange", "target"] = some item := hitem
  have hcheckout : item.lookup "checkout" = some live.checkout.toJson := hlookup _
  have hrevision : item.lookup "baseRevision" = some (.num live.baseRevision) := hlookup _
  have hrequests : item.lookup "pullRequests" = some (.arr (live.pullRequests.map .str)) := hlookup _
  have hcommits : Json.optional (readList 200 (commitSchema platform)) (item.lookup "commits") =
      some live.commits := by
    rw [hlookup, show (live.fields.lookup "commits").join =
      live.commits.map fun commits ↦ .arr (commits.map Commit.toJson) from rfl]
    exact Json.optional_map fun commits hmem ↦ readList_map
      (fun commit hcommit ↦ commitSchema_toJson ((h.commits commits hmem).2 commit hcommit))
      (h.commits commits hmem).1
  have houtstanding : Json.optional (fun value ↦ (readList 100 (·.string.filter (bounded 128)) value).filter
      (1 ≤ ·.length)) (item.lookup "outstanding") = some live.outstanding := by
    rw [hlookup, show (live.fields.lookup "outstanding").join =
      live.outstanding.map fun ids ↦ .arr (ids.map .str) from rfl]
    refine Json.optional_map fun ids hmem ↦ ?_
    obtain ⟨hnonempty, hlength, hids⟩ := h.outstanding ids hmem
    rw [readList_map (fun id hid ↦ ?_) hlength, Option.filter_some, if_pos]
    · exact decide_eq_true (List.length_pos_iff.2 hnonempty)
    · rw [Json.string_str, Option.filter_some, if_pos (hids id hid)]
  have hsettled : Json.optional (readList 50 (settlementSchema platform)) (item.lookup "noChange") =
      some live.noChange := by
    rw [hlookup, show (live.fields.lookup "noChange").join =
      live.noChange.map fun settled ↦ .arr (settled.map Settlement.toJson) from rfl]
    exact Json.optional_map fun settled hmem ↦ readList_map
      (fun settlement hsettlement ↦
        settlementSchema_toJson ((h.noChange settled hmem).2 settlement hsettlement))
      (h.noChange settled hmem).1
  have htarget : Json.optional (targetSchema platform) (item.lookup "target") = some live.target := by
    rw [hlookup, show (live.fields.lookup "target").join = live.target.map Target.toJson from rfl]
    exact Json.optional_map fun target hmem ↦
      targetSchema_toJson (h.target target hmem).1 (h.target target hmem).2
  have haddresses : readList 100 (readAddress platform) (.arr (live.pullRequests.map .str)) =
      some live.pullRequests :=
    readList_map (fun url hurl ↦ readAddress_str (h.addresses url hurl)) h.requests
  rw [liveSchema, hread, Option.some_then,
    readString_eq (hlookup "buildId") h.buildId]
  simp only [Option.some_then, readString_eq (hlookup "user") h.user,
    readString_eq (hlookup "repositoryId") h.repositoryId, hcheckout, checkoutSchema_toJson h.checkout,
    hrevision, Json.safe_num h.baseRevision,
    readString_any (hlookup "baseSource"), hrequests, haddresses, hcommits,
    houtstanding, hsettled, htarget, Option.pure_def]

/-! ## What the schema reads it takes again -/

theorem readString_ok (h : readString accepts item key = some value) : accepts value = true :=
  (Option.filter_eq_some_iff.1 h).2

variable {value : Json}

theorem readList_ok {α : Type} {limit : Nat} {read : Json → Option α}
    {values : List α} (h : readList limit read value = some values) :
    values.length ≤ limit ∧ ∀ found ∈ values, ∃ json, read json = some found := by
  obtain ⟨hread, hlength⟩ := Option.filter_eq_some_iff.1 h
  obtain ⟨items, -, hitems⟩ := Option.bind_eq_some_iff.1 hread
  refine ⟨by simpa using hlength, fun found hmem ↦ ?_⟩
  obtain ⟨json, -, hfound⟩ := Option.mem_of_mapM hitems found hmem
  exact ⟨json, hfound⟩

theorem readAddress_ok {url : String}
    (h : readAddress platform value = some url) : platform.address url = some url := by
  obtain ⟨stored, -, h⟩ := Option.bind_eq_some_iff.1 h
  rw [Platform.address] at h
  split at h <;> cases h
  rename_i hurl
  rw [Platform.address, trim_trim, if_pos hurl]

theorem checkoutSchema_ok (h : checkoutSchema value = some checkout) : checkout.valid = true := by
  simp only [checkoutSchema, Option.then_eq_some] at h
  obtain ⟨item, -, repository, hrepository, branch, hbranch, commit, hcommit, h⟩ := h
  cases h
  have hbounded : branch.all (bounded 255) = true := by
    refine (Option.all_eq_true _ _).2 fun name hname ↦ ?_
    obtain ⟨json, hread⟩ := Json.optional_ok hbranch name hname
    exact (Option.filter_eq_some_iff.1 hread).2
  simp only [Checkout.valid, readString_ok hrepository, hbounded, readString_ok hcommit, Bool.and_self]

theorem commitSchema_ok {commit : Commit}
    (h : commitSchema platform value = some commit) : commit.Storable platform := by
  simp only [commitSchema, Option.then_eq_some] at h
  obtain ⟨item, -, stored, -, request, hrequest, sha, hsha, message, hmessage, number, -, revision,
    hrevision, time, htime, h⟩ := h
  cases h
  exact ⟨readAddress_ok hrequest, readString_ok hsha, readString_ok hmessage, Json.safe_le hrevision,
    readString_ok htime⟩

theorem settlementSchema_ok (h : settlementSchema platform value = some settlement) : settlement.Storable platform := by
  simp only [settlementSchema, Option.then_eq_some] at h
  obtain ⟨item, -, id, hid, number, -, revision, hrevision, summary, hsummary, time, htime, h⟩ := h
  cases h
  exact ⟨readString_ok hid, Json.safe_le hrevision, readString_ok hsummary, readString_ok htime⟩

theorem targetSchema_ok {target : Target} (h : targetSchema platform value = some target) :
    platform.uuid target.buildId = true ∧ target.revision ≤ Json.maxSafe := by
  simp only [targetSchema, Option.then_eq_some] at h
  obtain ⟨item, -, id, hid, number, -, revision, hrevision, source, -, h⟩ := h
  cases h
  exact ⟨readString_ok hid, Json.safe_le hrevision⟩

/-- **Whatever record the schema reads is storable.** -/
theorem liveSchema_ok (h : liveSchema platform value = some live) : live.Storable platform := by
  simp only [liveSchema, Option.then_eq_some] at h
  obtain ⟨item, -, id, hid, user, huser, repository, hrepository, stored, -, checkout, hcheckout, number,
    -, revision, hrevision, source, -, addresses, -, requests, hrequests, commits, hcommits, outstanding,
    houtstanding, settled, hsettled, target, htarget, h⟩ := h
  cases h
  have haddresses := readList_ok hrequests
  refine ⟨readString_ok hid, readString_ok huser, readString_ok hrepository, checkoutSchema_ok hcheckout,
    Json.safe_le hrevision, fun url hurl ↦ ?_, haddresses.1, fun list hlist ↦ ?_, fun list hlist ↦ ?_,
    fun list hlist ↦ ?_, fun found hfound ↦ ?_⟩
  · obtain ⟨json, hread⟩ := haddresses.2 url hurl
    exact readAddress_ok hread
  · obtain ⟨json, hread⟩ := Json.optional_ok hcommits list hlist
    exact (readList_ok hread).imp_right fun hitems commit hmem ↦ commitSchema_ok (hitems commit hmem).choose_spec
  · obtain ⟨json, hread⟩ := Json.optional_ok houtstanding list hlist
    obtain ⟨hlist, hlength⟩ := Option.filter_eq_some_iff.1 hread
    obtain ⟨hlimit, hitems⟩ := readList_ok hlist
    refine ⟨?_, hlimit, fun task hmem ↦ (Option.filter_eq_some_iff.1 (hitems task hmem).choose_spec).2⟩
    rintro rfl
    exact absurd hlength (by decide)
  · obtain ⟨json, hread⟩ := Json.optional_ok hsettled list hlist
    exact (readList_ok hread).imp_right fun hitems entry hmem ↦
      settlementSchema_ok (hitems entry hmem).choose_spec
  · obtain ⟨json, hread⟩ := Json.optional_ok htarget found hfound
    exact targetSchema_ok hread

end Chopin.Tasks
