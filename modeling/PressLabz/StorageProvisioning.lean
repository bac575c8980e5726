import Mathlib.Logic.Function.Basic
import PressLabz.Interaction

/-! # Bringing the object store up

`provisionStorage` of `apps/api/src/media/storage.ts`, the one piece of code that creates a
bucket or writes a policy.  It is a conversation with a store that others use too: each
command may succeed, fail, or take effect and be reported as failed, and between any two
of them somebody may create the bucket, delete it or set a policy of their own.

The store is not part of the repository.  How it answers is a parameter, and what the
installation relies on of it is `Relied`: what each command may change, and that it is asked
about its own bucket only.  That a bucket which was "created" had not been there is an
assumption of its own (`CreatesNew`), since not every store keeps to it.

A policy is written only over that of a bucket that this very run created, and only what
others did since the creation can be overwritten by it (`provisioned`).
-/
namespace PressLabz.StorageProvisioning
open Interaction

/-! ## The store -/

inductive MediaDelivery where
  | direct
  | external
  deriving DecidableEq

structure PolicyStatement where
  effect : String
  principal : List String
  action : List String
  resource : List String
  deriving DecidableEq

/-- A bucket policy, before `JSON.stringify`. -/
structure Policy where
  version : String
  statement : List PolicyStatement
  deriving DecidableEq

structure StoredObject where
  body : String
  contentType : String
  cacheControl : String
  contentDisposition : String
  deriving DecidableEq

structure Bucket where
  policy : Option Policy
  objects : String → Option StoredObject

/-- A bucket that was just created. -/
def Bucket.new : Bucket := ⟨none, fun _ => none⟩

/-- The buckets by name. -/
abbrev ObjectStore := String → Option Bucket

inductive Command where
  | headBucket (bucket : String)
  /-- The location is named unless it is the one that may not be. -/
  | createBucket (bucket : String) (locationConstraint : Option String)
  | putBucketPolicy (bucket : String) (policy : Policy)
  | putObject (bucket key : String) (object : StoredObject)
  /-- A request of a reader: no credentials, `no-store`, within so many milliseconds. -/
  | fetch (url : String) (timeoutMs : Nat)
  deriving DecidableEq

/-- An answer, or a failure: with the status where something answered, and the name of the
error. -/
inductive Reply where
  | ok
  | failed (status : Option Nat) (name : String)
  deriving DecidableEq

/-- The bucket a command is about. -/
def Command.bucket : Command → Option String
  | .headBucket bucket => some bucket
  | .createBucket bucket _ => some bucket
  | .putBucketPolicy bucket _ => some bucket
  | .putObject bucket _ _ => some bucket
  | .fetch _ _ => none

/-- How a store may answer a command, and what it holds then. -/
abbrev Answering := ObjectStore → Command → Reply → ObjectStore → Prop

/-- What the installation relies on of a store, whatever the reply: a failure may have had
its effect, so that only what a command may change is said. -/
structure Relied (answers : Answering) : Prop where
  /-- A command leaves every bucket alone but its own. -/
  frame : ∀ {store command reply left bucket}, answers store command reply left →
    command.bucket ≠ some bucket → left bucket = store bucket
  head : ∀ {store bucket reply left}, answers store (.headBucket bucket) reply left →
    left = store
  fetch : ∀ {store url timeoutMs reply left}, answers store (.fetch url timeoutMs) reply left →
    left = store
  /-- To create a bucket that is there leaves its policy and its objects. -/
  create : ∀ {store bucket location reply left found},
    answers store (.createBucket bucket location) reply left → store bucket = some found →
    left bucket = some found
  /-- A policy takes the place of the one before it, and nothing else changes. -/
  grant : ∀ {store bucket policy reply left found},
    answers store (.putBucketPolicy bucket policy) reply left → store bucket = some found →
    left bucket = some found ∨ left bucket = some { found with policy := some policy }
  /-- An object takes the place of the one under its key, and nothing else changes. -/
  write : ∀ {store bucket key object reply left found},
    answers store (.putObject bucket key object) reply left → store bucket = some found →
    left bucket = some found ∨ left bucket = some
      { found with objects := Function.update found.objects key (some object) }

/-- A store that creates a bucket only where there was none.  S3 answers 409 for a bucket of
one's own, but for `us-east-1`, where it answers as if it had created it. -/
def CreatesNew (answers : Answering) : Prop :=
  ∀ {store bucket location left}, answers store (.createBucket bucket location) .ok left →
    store bucket = none ∧ left bucket = some .new

/-! ## What was heard -/

inductive BucketState where
  | present
  | missing
  | denied
  | erroring
  | unreachable
  deriving DecidableEq

/-- `bucketStateOf`, of the reply to `HeadBucket`. -/
def bucketStateOf : Reply → BucketState
  | .ok => .present
  | .failed none _ => .unreachable
  | .failed (some status) _ =>
    if status = 404 then .missing
    else if status = 401 ∨ status = 403 ∨ (300 ≤ status ∧ status < 400) then .denied
    else .erroring

inductive DeliveryFailure where
  | forbidden
  | missing
  | unreachable
  | unexpected (status : Nat)
  deriving DecidableEq

/-- `checkDelivery`, of the reply to a fetch; none is a delivery that works. -/
def checkDelivery : Reply → Option DeliveryFailure
  | .ok => none
  | .failed none _ => some .unreachable
  | .failed (some status) _ =>
    if status = 403 then some .forbidden
    else if status = 404 then some .missing
    else some (.unexpected status)

/-! ## The program -/

def DELIVERY_CHECK_KEY : String := "media/delivery-check.txt"
def DELIVERY_CHECK_BODY : String := "presslabz delivery check\n"

def checkObject : StoredObject where
  body := DELIVERY_CHECK_BODY
  contentType := "text/plain; charset=utf-8"
  cacheControl := "no-store"
  contentDisposition := "inline"

/-- Reads only, and only of objects. -/
def publicReadPolicy (bucket : String) : Policy where
  version := "2012-10-17"
  statement :=
    [{ effect := "Allow"
       principal := ["*"]
       action := ["s3:GetObject"]
       resource := ["arn:aws:s3:::" ++ bucket ++ "/*"] }]

/-- The environment, and what a caller chose. -/
structure ProvisionOptions where
  bucket : String
  region : String
  endpoint : String
  delivery : MediaDelivery
  checkUrl : String

structure ProvisionResult where
  created : Bool
  policyApplied : Bool
  delivery : MediaDelivery
  checkKey : String

/-- A `StorageProvisioningError`, by what went wrong. -/
inductive ProvisioningError where
  | state (state : BucketState)
  | creating (status : Option Nat) (name : String)
  | writingPolicy (status : Option Nat) (name : String)
  | writingCheck (status : Option Nat) (name : String)
  | delivery (created : Bool) (failure : DeliveryFailure)

section Texts
variable (options : ProvisionOptions)

def failureNarrative (status : Option Nat) (name : String) : String :=
  match status with
  | none => "Nothing answered (" ++ name ++
    "): the endpoint is unreachable from here — network, DNS, TLS or a timeout."
  | some status =>
    if status = 401 ∨ status = 403 then
      "The store refused the permission (" ++ name ++ ", " ++ toString status ++ ")."
    else if 500 ≤ status then
      "The store answered " ++ toString status ++ " (" ++ name ++
        "), which is the store failing rather than refusing."
    else
      "The store answered " ++ toString status ++ " (" ++ name ++
        "), which is neither success nor a refusal."

def deliveryFailureMessage (url : String) (failure : DeliveryFailure) (delivery : MediaDelivery) :
    String :=
  match failure, delivery with
  | .forbidden, .direct => url ++ " answered 403 to an anonymous request: readers get errors instead of images. Allow public reads of the media prefix on the bucket, or set MEDIA_BASE_URL to a base that serves them."
  | .forbidden, .external => url ++ " answered 403 to an anonymous request: readers get errors instead of images. The delivery base named by MEDIA_BASE_URL is refusing, which is its own configuration rather than the bucket's — check how it authorises requests to its origin."
  | .missing, .direct => url ++ " answered 404: the delivery check object is not in the bucket. Run `pnpm storage:init` against this installation."
  | .missing, .external => url ++ " answered 404. Any of these would do it: MEDIA_BASE_URL points somewhere else, the base prefixes paths differently from the bucket, its origin is not connected to this bucket, the object has not propagated yet, or `pnpm storage:init` was never run. Fetching the same key straight from the store tells you which half is wrong."
  | .unreachable, _ => url ++ " did not answer at all within the health check budget: the media delivery base is down or unroutable from this instance."
  | .unexpected status, _ => url ++ " answered " ++ toString status ++ " to an anonymous request, which is neither success nor a refusal this can interpret."

/-- `step`: the attempt, how it failed, and what to do. -/
def stepMessage (attempt : String) (status : Option Nat) (name advice : String) : String :=
  attempt ++ " did not succeed. " ++ failureNarrative status name ++ " " ++ advice

/-- The text an operator reads. -/
def ProvisioningError.message : ProvisioningError → String
  | .state .denied => "The object store refused the credentials for bucket \"" ++ options.bucket ++ "\". Nothing was created. Check S3_ACCESS_KEY_ID, S3_SECRET_ACCESS_KEY and S3_REGION."
  | .state .unreachable => "The object store at " ++ options.endpoint ++ " did not answer. Nothing was created; start it and run this again."
  | .state _ => "The object store at " ++ options.endpoint ++ " answered, but not with anything this can act on — it is failing rather than refusing. Nothing was created; check the store's own logs and run this again."
  | .creating status name => stepMessage ("Creating bucket \"" ++ options.bucket ++ "\"") status name
    "The credentials given to this command need CreateBucket, or somebody has to create the bucket and run this again — an existing one is never modified."
  | .writingPolicy status name => stepMessage ("Bucket \"" ++ options.bucket ++ "\" was created, but writing its public-read policy") status name
    "The credentials given to this command need PutBucketPolicy, or the store blocks public access at the account level. Set the policy yourself, or set MEDIA_BASE_URL and run this again — the bucket exists now, so it will not be touched."
  | .writingCheck status name => stepMessage ("Writing " ++ DELIVERY_CHECK_KEY ++ " to bucket \"" ++ options.bucket ++ "\"") status name
    "This says the identity given to this command may not write to the bucket. It says nothing about the identity the server runs with, which may be a different one — an installation is free to provision with a privileged account and serve with a narrow one."
  | .delivery true failure => "Bucket \"" ++ options.bucket ++ "\" was created and given a public-read policy, but " ++ deliveryFailureMessage options.checkUrl failure options.delivery ++ " The store may block public access at the account level, which is a setting this command cannot and should not change."
  | .delivery false failure => "Bucket \"" ++ options.bucket ++ "\" already exists and its policy was left exactly as it is, because this installation did not create it. " ++ deliveryFailureMessage options.checkUrl failure options.delivery

end Texts

section Program
variable (options : ProvisionOptions)

abbrev Provisioning := Prog Command Reply (Except ProvisioningError ProvisionResult)

def ProvisionOptions.create : Command :=
  .createBucket options.bucket
    (if options.region = "us-east-1" then none else some options.region)

def ProvisionOptions.grant : Command :=
  .putBucketPolicy options.bucket (publicReadPolicy options.bucket)

def ProvisionOptions.write : Command :=
  .putObject options.bucket DELIVERY_CHECK_KEY checkObject

def ProvisionOptions.check : Command := .fetch options.checkUrl 10000

def ProvisionOptions.result (created : Bool) : ProvisionResult where
  created := created
  policyApplied := created && options.delivery = .direct
  delivery := options.delivery
  checkKey := DELIVERY_CHECK_KEY

/-- Only the delivery that was configured here is checked. -/
def verify (created : Bool) : Provisioning :=
  if options.delivery = .direct then
    .send options.check fun reply =>
      match checkDelivery reply with
      | none => .done (.ok (options.result created))
      | some failure => .done (.error (.delivery created failure))
  else .done (.ok (options.result created))

def writeCheck (created : Bool) : Provisioning :=
  .send options.write fun
    | .ok => verify options created
    | .failed status name => .done (.error (.writingCheck status name))

/-- A bucket that was created here gets its policy, where readers go to the bucket. -/
def grantReads : Provisioning :=
  if options.delivery = .direct then
    .send options.grant fun
      | .ok => writeCheck options true
      | .failed status name => .done (.error (.writingPolicy status name))
  else writeCheck options true

def createBucket : Provisioning :=
  .send options.create fun
    | .ok => grantReads options
    | .failed status name => .done (.error (.creating status name))

/-- `provisionStorage`. -/
def provisionStorage : Provisioning :=
  .send (.headBucket options.bucket) fun reply =>
    match bucketStateOf reply with
    | .present => writeCheck options false
    | .missing => createBucket options
    | state => .done (.error (.state state))

end Program

/-! ## What is said, and when -/

abbrev Talk := List (Command × Reply)

section Talks
variable (options : ProvisionOptions)

/-- What was said before the check object is written; the flag is `created`. -/
inductive Opened : Bool → Talk → Prop
  | present (reply : Reply) (h : bucketStateOf reply = .present) :
      Opened false [(.headBucket options.bucket, reply)]
  | created (reply : Reply) (h : bucketStateOf reply = .missing)
      (hexternal : options.delivery ≠ .direct) :
      Opened true [(.headBucket options.bucket, reply), (options.create, .ok)]
  | granted (reply : Reply) (h : bucketStateOf reply = .missing)
      (hdirect : options.delivery = .direct) :
      Opened true
        [(.headBucket options.bucket, reply), (options.create, .ok), (options.grant, .ok)]

/-- Where the program is, by what was said. -/
inductive Stage : Talk → Provisioning → Prop
  | start : Stage [] (provisionStorage options)
  | refused (reply : Reply) (hpresent : bucketStateOf reply ≠ .present)
      (hmissing : bucketStateOf reply ≠ .missing) :
      Stage [(.headBucket options.bucket, reply)] (.done (.error (.state (bucketStateOf reply))))
  | creating (reply : Reply) (h : bucketStateOf reply = .missing) :
      Stage [(.headBucket options.bucket, reply)] (createBucket options)
  | notCreated (reply : Reply) (h : bucketStateOf reply = .missing) (status : Option Nat)
      (name : String) :
      Stage [(.headBucket options.bucket, reply), (options.create, .failed status name)]
        (.done (.error (.creating status name)))
  | granting (reply : Reply) (h : bucketStateOf reply = .missing)
      (hdirect : options.delivery = .direct) :
      Stage [(.headBucket options.bucket, reply), (options.create, .ok)] (grantReads options)
  | notGranted (reply : Reply) (h : bucketStateOf reply = .missing) (status : Option Nat)
      (name : String) :
      Stage
        [(.headBucket options.bucket, reply), (options.create, .ok),
          (options.grant, .failed status name)]
        (.done (.error (.writingPolicy status name)))
  | writing (created : Bool) (talk : Talk) (h : Opened options created talk) :
      Stage talk (writeCheck options created)
  | notWritten (created : Bool) (talk : Talk) (h : Opened options created talk)
      (status : Option Nat) (name : String) :
      Stage (talk ++ [(options.write, .failed status name)])
        (.done (.error (.writingCheck status name)))
  | written (created : Bool) (talk : Talk) (h : Opened options created talk) :
      Stage (talk ++ [(options.write, .ok)]) (verify options created)
  | checked (created : Bool) (talk : Talk) (h : Opened options created talk)
      (hdirect : options.delivery = .direct) (reply : Reply)
      (hreply : checkDelivery reply = none) :
      Stage (talk ++ [(options.write, .ok), (options.check, reply)])
        (.done (.ok (options.result created)))
  | notDelivered (created : Bool) (talk : Talk) (h : Opened options created talk)
      (hdirect : options.delivery = .direct) (reply : Reply) (failure : DeliveryFailure)
      (hreply : checkDelivery reply = some failure) :
      Stage (talk ++ [(options.write, .ok), (options.check, reply)])
        (.done (.error (.delivery created failure)))

variable {options} {talk : Talk} {prog : Provisioning} {command : Command}
  {next : Reply → Provisioning}

/-- **The program goes on** from wherever it is to the stage that the reply leads to. -/
theorem Stage.send (h : Stage options talk prog) (hprog : prog = .send command next)
    (reply : Reply) : Stage options (talk ++ [(command, reply)]) (next reply) := by
  cases h with
  | start =>
    obtain ⟨rfl, rfl⟩ := Prog.send.inj hprog
    have hrefused : ∀ state, bucketStateOf reply = state → state ≠ .present → state ≠ .missing →
        Stage options [(.headBucket options.bucket, reply)] (.done (.error (.state state))) := by
      rintro _ rfl hpresent hmissing
      exact .refused reply hpresent hmissing
    rw [List.nil_append]
    dsimp only
    cases hstate : bucketStateOf reply with
    | present => exact .writing false _ (.present reply hstate)
    | missing => exact .creating reply hstate
    | denied | erroring | unreachable => exact hrefused _ hstate (by decide) (by decide)
  | refused => cases hprog
  | creating head h =>
    obtain ⟨rfl, rfl⟩ := Prog.send.inj hprog
    cases reply with
    | ok =>
      by_cases hdirect : options.delivery = .direct
      · exact .granting head h hdirect
      · show Stage options _ (grantReads options)
        rw [grantReads, if_neg hdirect]
        exact .writing true _ (.created head h hdirect)
    | failed status name => exact .notCreated head h status name
  | notCreated => cases hprog
  | granting head h hdirect =>
    rw [grantReads, if_pos hdirect] at hprog
    obtain ⟨rfl, rfl⟩ := Prog.send.inj hprog
    cases reply with
    | ok => exact .writing true _ (.granted head h hdirect)
    | failed status name => exact .notGranted head h status name
  | notGranted => cases hprog
  | writing created talk h =>
    obtain ⟨rfl, rfl⟩ := Prog.send.inj hprog
    cases reply with
    | ok => exact .written created talk h
    | failed status name => exact .notWritten created talk h status name
  | notWritten => cases hprog
  | written created talk h =>
    rw [verify] at hprog
    split at hprog
    · rename_i hdirect
      obtain ⟨rfl, rfl⟩ := Prog.send.inj hprog
      rw [List.append_assoc]
      dsimp only
      cases hreply : checkDelivery reply with
      | none => exact .checked created talk h hdirect reply hreply
      | some failure => exact .notDelivered created talk h hdirect reply failure hreply
    · cases hprog
  | checked => cases hprog
  | notDelivered => cases hprog

theorem stage_of_reaches (h : Reaches (provisionStorage options) talk prog) :
    Stage options talk prog := by
  induction h with
  | start => exact .start
  | send _ reply ih => exact ih.send rfl reply

variable (options) in
/-- When a command is sent. -/
inductive Due : Talk → Command → Prop
  | head : Due [] (.headBucket options.bucket)
  | create (reply : Reply) (h : bucketStateOf reply = .missing) :
      Due [(.headBucket options.bucket, reply)] options.create
  | grant (reply : Reply) (h : bucketStateOf reply = .missing)
      (hdirect : options.delivery = .direct) :
      Due [(.headBucket options.bucket, reply), (options.create, .ok)] options.grant
  | write (created : Bool) (talk : Talk) (h : Opened options created talk) :
      Due talk options.write
  | check (created : Bool) (talk : Talk) (h : Opened options created talk)
      (hdirect : options.delivery = .direct) :
      Due (talk ++ [(options.write, .ok)]) options.check

theorem Stage.due (h : Stage options talk (.send command next)) : Due options talk command := by
  generalize hprog : Prog.send command next = prog at h
  cases h with
  | start =>
    obtain ⟨rfl, -⟩ := Prog.send.inj hprog
    exact .head
  | creating reply h =>
    obtain ⟨rfl, -⟩ := Prog.send.inj hprog
    exact .create reply h
  | granting reply h hdirect =>
    rw [grantReads, if_pos hdirect] at hprog
    obtain ⟨rfl, -⟩ := Prog.send.inj hprog
    exact .grant reply h hdirect
  | writing created talk h =>
    obtain ⟨rfl, -⟩ := Prog.send.inj hprog
    exact .write created talk h
  | written created talk h =>
    rw [verify] at hprog
    split at hprog
    · rename_i hdirect
      obtain ⟨rfl, -⟩ := Prog.send.inj hprog
      exact .check created talk h hdirect
    · cases hprog
  | refused | notCreated | notGranted | notWritten | checked | notDelivered => cases hprog

end Talks

/-! ## What a command changes -/

section Commands
variable {answers : Answering} {store left : ObjectStore} {command : Command} {reply : Reply}
  {bucket : String} {found : Bucket}

/-- What is in a bucket stays, but for what the command names. -/
theorem Relied.kept (hstore : Relied answers) (h : answers store command reply left)
    (hfound : store bucket = some found) :
    ∃ after, left bucket = some after ∧
      (∀ key, (∀ object, command ≠ .putObject bucket key object) →
        after.objects key = found.objects key) ∧
      ((∀ policy, command ≠ .putBucketPolicy bucket policy) → after.policy = found.policy) := by
  have hsame : left bucket = store bucket → ∃ after, left bucket = some after ∧
      (∀ key, (∀ object, command ≠ .putObject bucket key object) →
        after.objects key = found.objects key) ∧
      ((∀ policy, command ≠ .putBucketPolicy bucket policy) → after.policy = found.policy) :=
    fun heq => ⟨found, heq.trans hfound, fun _ _ => rfl, fun _ => rfl⟩
  by_cases hbucket : command.bucket = some bucket
  · cases command with
    | headBucket b => exact hsame (by rw [hstore.head h])
    | createBucket b _ =>
      obtain rfl : b = bucket := Option.some.inj hbucket
      exact hsame ((hstore.create h hfound).trans hfound.symm)
    | putBucketPolicy b policy =>
      obtain rfl : b = bucket := Option.some.inj hbucket
      rcases hstore.grant h hfound with hleft | hleft
      · exact hsame (hleft.trans hfound.symm)
      · exact ⟨_, hleft, fun _ _ => rfl, fun hnot => absurd rfl (hnot policy)⟩
    | putObject b key object =>
      obtain rfl : b = bucket := Option.some.inj hbucket
      rcases hstore.write h hfound with hleft | hleft
      · exact hsame (hleft.trans hfound.symm)
      · refine ⟨_, hleft, fun key' hkey => ?_, fun _ => rfl⟩
        refine Function.update_of_ne (fun heq => ?_) _ _
        subst heq
        exact hkey object rfl
    | fetch _ _ => cases hbucket
  · exact hsame (hstore.frame h hbucket)

/-- To write an object that is there already changes nothing. -/
theorem Relied.again (hstore : Relied answers) {key : String} {object : StoredObject}
    (h : answers store (.putObject bucket key object) reply left)
    (hfound : store bucket = some found) (hobject : found.objects key = some object) :
    left = store := by
  have hobjects : Function.update found.objects key (some object) = found.objects :=
    Function.update_eq_self_iff.mpr hobject.symm
  funext other
  by_cases hother : bucket = other
  · subst hother
    rcases hstore.write h hfound with hleft | hleft
    · exact hleft.trans hfound.symm
    · rw [hleft, hobjects, hfound]
  · exact hstore.frame h fun heq => hother (Option.some.inj heq)

end Commands

/-! ## Runs -/

abbrev Provision := Config Command Reply ObjectStore (Except ProvisioningError ProvisionResult)
abbrev Told := Exchange Command Reply ObjectStore
abbrev Happened := Event Command Reply ObjectStore

/-- Only others were at the store. -/
def OnlyOthers (events : List Happened) : Prop := ∀ event ∈ events, event.said = none

/-- What an error says is so. -/
def ProvisioningError.Truthful (options : ProvisionOptions) (c : Provision) :
    ProvisioningError → Prop
  | .state heard =>
    (∃ reply, c.said = [(.headBucket options.bucket, reply)] ∧ bucketStateOf reply = heard) ∧
      ∀ e, .exchange e ∈ c.history → e.left = e.found
  | .creating status name => ∃ reply, bucketStateOf reply = .missing ∧
      c.said = [(.headBucket options.bucket, reply), (options.create, .failed status name)]
  | .writingPolicy status name => ∃ reply, bucketStateOf reply = .missing ∧
      c.said = [(.headBucket options.bucket, reply), (options.create, .ok),
        (options.grant, .failed status name)]
  | .writingCheck status name => ∃ created talk, Opened options created talk ∧
      c.said = talk ++ [(options.write, .failed status name)]
  | .delivery created failure => ∃ talk reply, Opened options created talk ∧
      checkDelivery reply = some failure ∧ options.delivery = .direct ∧
      c.said = talk ++ [(options.write, .ok), (options.check, reply)]

/-- What holds of every run, finished or not. -/
structure Provisioned (options : ProvisionOptions) (c : Provision) : Prop where
  /-- No other bucket is touched. -/
  frame : ∀ e, .exchange e ∈ c.history → ∀ bucket ≠ options.bucket, e.left bucket = e.found bucket
  /-- Of the bucket, only the check object is written, and the policy by the one command. -/
  kept : ∀ e, .exchange e ∈ c.history → ∀ found, e.found options.bucket = some found →
    ∃ after, e.left options.bucket = some after ∧
      (∀ key ≠ DELIVERY_CHECK_KEY, after.objects key = found.objects key) ∧
      (e.command ≠ options.grant → after.policy = found.policy)
  /-- A policy is written where this run created the bucket: over none, unless somebody was
  at the store since. -/
  policy : ∀ before e after, c.history = before ++ .exchange e :: after →
    e.command = options.grant → options.delivery = .direct ∧
    ∃ earlier created between, before = earlier ++ .exchange created :: between ∧
      created.command = options.create ∧ created.reply = .ok ∧
      created.found options.bucket = none ∧ created.left options.bucket = some .new ∧
      OnlyOthers between ∧ Chained created.left between e.found
  /-- A bucket that was there gets no policy; and nothing changes where the check object was
  there, too. -/
  again : ∀ reply, (.headBucket options.bucket, reply) ∈ c.said → bucketStateOf reply = .present →
    ∀ e, .exchange e ∈ c.history → e.command ≠ options.create ∧ e.command ≠ options.grant ∧
      ∀ found, e.found options.bucket = some found →
        found.objects DELIVERY_CHECK_KEY = some checkObject → e.left = e.found
  /-- A result that is returned is so. -/
  returned : ∀ result, c.prog = .done (.ok result) → ∃ created,
    result = options.result created ∧
    (created = true ↔ (options.create, .ok) ∈ c.said) ∧
    (result.policyApplied = true ↔ (options.grant, .ok) ∈ c.said) ∧
    (options.write, .ok) ∈ c.said ∧
    (options.delivery = .direct → (options.check, .ok) ∈ c.said)
  /-- An error that is reported is so. -/
  reported : ∀ error, c.prog = .done (.error error) → error.Truthful options c

section Runs
variable {answers : Answering} {options : ProvisionOptions} {store : ObjectStore} {c : Provision}

/-- Who says two things last has said them one after the other, with nobody but others
between. -/
theorem said_last {events : List Happened} {talk : Talk} {command : Command} {reply : Reply}
    (h : events.filterMap Event.said = talk ++ [(command, reply)]) :
    ∃ earlier e between, events = earlier ++ .exchange e :: between ∧
      e.command = command ∧ e.reply = reply ∧ OnlyOthers between := by
  obtain ⟨earlier, rest, rfl, -, hrest⟩ := List.filterMap_eq_append_iff.mp h
  obtain ⟨skipped, event, between, rfl, -, hevent, hbetween⟩ :=
    List.filterMap_eq_cons_iff.mp hrest
  cases event with
  | others _ _ => cases hevent
  | exchange e =>
    obtain ⟨rfl, rfl⟩ := Prod.mk.inj (Option.some.inj hevent)
    exact ⟨earlier ++ skipped, e, between, by simp, rfl, rfl,
      List.filterMap_eq_nil_iff.mp hbetween⟩

theorem run_due (h : Run answers (provisionStorage options) store c) {before after : List Happened}
    {e : Told} (hhistory : c.history = before ++ .exchange e :: after) :
    Due options (before.filterMap Event.said) e.command := by
  obtain ⟨next, hreaches⟩ := h.at_exchange hhistory
  exact (stage_of_reaches hreaches).due

theorem run_mem (h : Run answers (provisionStorage options) store c) {e : Told}
    (he : .exchange e ∈ c.history) : ∃ talk, Due options talk e.command := by
  obtain ⟨before, after, hhistory⟩ := List.append_of_mem he
  exact ⟨_, run_due h hhistory⟩

theorem provisioned_policy (hcreates : CreatesNew answers)
    (h : Run answers (provisionStorage options) store c)
    {before after : List Happened} {e : Told}
    (hhistory : c.history = before ++ .exchange e :: after) (hgrant : e.command = options.grant) :
    options.delivery = .direct ∧
    ∃ earlier created between, before = earlier ++ .exchange created :: between ∧
      created.command = options.create ∧ created.reply = .ok ∧
      created.found options.bucket = none ∧ created.left options.bucket = some .new ∧
      OnlyOthers between ∧ Chained created.left between e.found := by
  have hdue := run_due h hhistory
  rw [hgrant] at hdue
  generalize htalk : before.filterMap Event.said = talk at hdue
  generalize hcommand : options.grant = command at hdue
  cases hdue with
  | grant reply hmissing hdirect =>
    obtain ⟨earlier, created, between, rfl, hcreate, hok, hothers⟩ :=
      @said_last _ [(.headBucket options.bucket, reply)] _ _ htalk
    have hanswers := h.answered (e := created) (by rw [hhistory]; simp)
    rw [hcreate, hok] at hanswers
    obtain ⟨hnone, hleft⟩ := hcreates hanswers
    obtain ⟨middle, hchain, hrest⟩ := (hhistory ▸ h.chained).split
    obtain ⟨_, -, hbetween⟩ := hchain.split
    refine ⟨hdirect, earlier, created, between, rfl, hcreate, hok, hnone, hleft, hothers, ?_⟩
    rw [show e.found = middle from hrest.1]
    exact hbetween.2
  | head | create | write | check => cases hcommand

/-- What was said before the check object is written tells what was done. -/
theorem Opened.said {created : Bool} {talk : Talk} (h : Opened options created talk) :
    (created = true ↔ (options.create, .ok) ∈ talk) ∧
    ((options.result created).policyApplied = true ↔ (options.grant, .ok) ∈ talk) := by
  cases h with
  | present reply _ =>
    simp [ProvisionOptions.create, ProvisionOptions.grant, ProvisionOptions.result]
  | created reply _ hexternal =>
    simp [ProvisionOptions.create, ProvisionOptions.grant, ProvisionOptions.result, hexternal]
  | granted reply _ hdirect =>
    simp [ProvisionOptions.create, ProvisionOptions.grant, ProvisionOptions.result, hdirect]

/-- The question whether the bucket is there comes first, and is asked once. -/
def AsksOnce (options : ProvisionOptions) (talk : Talk) : Prop :=
  ∀ reply, (.headBucket options.bucket, reply) ∈ talk →
    talk.head? = some (.headBucket options.bucket, reply)

theorem AsksOnce.append {talk rest : Talk} (h : AsksOnce options talk)
    (hrest : ∀ x ∈ rest, x.1 ≠ .headBucket options.bucket) : AsksOnce options (talk ++ rest) := by
  intro reply hmem
  rcases List.mem_append.mp hmem with hmem | hmem
  · rw [List.head?_append, h reply hmem, Option.some_or]
  · exact absurd rfl (hrest _ hmem)

theorem asksOnce_first (reply : Reply) :
    AsksOnce options [(.headBucket options.bucket, reply)] := fun reply' hmem => by
  rw [List.mem_singleton.mp hmem]
  rfl

theorem Opened.asksOnce {created : Bool} {talk : Talk} (h : Opened options created talk) :
    AsksOnce options talk := by
  cases h with
  | present reply _ => exact asksOnce_first reply
  | created reply _ _ =>
    refine @AsksOnce.append _ _ [(options.create, .ok)] (asksOnce_first reply) ?_
    simp [ProvisionOptions.create]
  | granted reply _ _ =>
    refine @AsksOnce.append _ _ [(options.create, .ok), (options.grant, .ok)]
      (asksOnce_first reply) ?_
    simp [ProvisionOptions.create, ProvisionOptions.grant]

theorem Stage.asksOnce {talk : Talk} {prog : Provisioning} (h : Stage options talk prog) :
    AsksOnce options talk := by
  have hopened : ∀ {created talk}, Opened options created talk → ∀ rest : Talk,
      (∀ x ∈ rest, x.1 ≠ .headBucket options.bucket) → AsksOnce options (talk ++ rest) :=
    fun h rest hrest => h.asksOnce.append hrest
  cases h with
  | start => exact fun _ hmem => absurd hmem List.not_mem_nil
  | refused reply _ _ => exact asksOnce_first reply
  | creating reply _ => exact asksOnce_first reply
  | notCreated reply _ status name =>
    refine @AsksOnce.append _ _ [(options.create, .failed status name)] (asksOnce_first reply) ?_
    simp [ProvisionOptions.create]
  | granting reply _ _ =>
    refine @AsksOnce.append _ _ [(options.create, .ok)] (asksOnce_first reply) ?_
    simp [ProvisionOptions.create]
  | notGranted reply _ status name =>
    refine @AsksOnce.append _ _ [(options.create, .ok), (options.grant, .failed status name)]
      (asksOnce_first reply) ?_
    simp [ProvisionOptions.create, ProvisionOptions.grant]
  | writing created talk h => exact h.asksOnce
  | notWritten created talk h status name =>
    exact hopened h _ (by simp [ProvisionOptions.write])
  | written created talk h => exact hopened h _ (by simp [ProvisionOptions.write])
  | checked created talk h _ reply _ =>
    exact hopened h _ (by simp [ProvisionOptions.write, ProvisionOptions.check])
  | notDelivered created talk h _ reply _ _ =>
    exact hopened h _ (by simp [ProvisionOptions.write, ProvisionOptions.check])

/-- Where the bucket was there, it is not created and gets no policy. -/
theorem present_due (h : Run answers (provisionStorage options) store c) {reply : Reply}
    (hsaid : (.headBucket options.bucket, reply) ∈ c.said)
    (hpresent : bucketStateOf reply = .present) {e : Told} (he : .exchange e ∈ c.history) :
    e.command ≠ options.create ∧ e.command ≠ options.grant := by
  obtain ⟨before, after, hhistory⟩ := List.append_of_mem he
  have hdue := run_due h hhistory
  have hfirst := (stage_of_reaches h.said).asksOnce reply hsaid
  have hsplit : c.said = before.filterMap Event.said ++
      (e.command, e.reply) :: after.filterMap Event.said := by
    rw [Config.said, hhistory, List.filterMap_append]
    rfl
  rw [hsplit] at hfirst
  generalize before.filterMap Event.said = talk at hdue hfirst
  generalize e.command = command at hdue hfirst
  have hmissing : ∀ found rest, bucketStateOf found = .missing →
      ((Command.headBucket options.bucket, found) :: rest : Talk).head? ≠
        some (.headBucket options.bucket, reply) := by
    intro found rest hmissing heq
    obtain rfl := (Prod.mk.inj (Option.some.inj heq)).2
    rw [hpresent] at hmissing
    cases hmissing
  cases hdue with
  | head | write _ _ _ | check _ _ _ _ =>
    exact ⟨fun heq => (by cases heq), fun heq => (by cases heq)⟩
  | create found h => exact absurd hfirst (hmissing found _ h)
  | grant found h _ => exact absurd hfirst (hmissing found _ h)

theorem checkDelivery_eq_none {reply : Reply} (h : checkDelivery reply = none) : reply = .ok := by
  cases reply with
  | ok => rfl
  | failed status name =>
    cases status with
    | none => cases h
    | some status =>
      rw [checkDelivery] at h
      split_ifs at h

/-- A run that came to a result has opened the bucket, written the check object and, where
readers go to the bucket, fetched it. -/
theorem Stage.finished {talk : Talk} {result : ProvisionResult}
    (h : Stage options talk (.done (.ok result))) : ∃ created opened,
    result = options.result created ∧ Opened options created opened ∧
    (talk = opened ++ [(options.write, .ok)] ∧ options.delivery ≠ .direct ∨
      talk = opened ++ [(options.write, .ok), (options.check, .ok)]) := by
  generalize hprog : (.done (.ok result) : Provisioning) = prog at h
  cases h with
  | written created opened h =>
    rw [verify] at hprog
    split at hprog
    · cases hprog
    · rename_i hexternal
      cases hprog
      exact ⟨created, opened, rfl, h, .inl ⟨rfl, hexternal⟩⟩
  | checked created opened h _ reply hreply =>
    cases hprog
    obtain rfl := checkDelivery_eq_none hreply
    exact ⟨created, opened, rfl, h, .inr rfl⟩
  | granting reply _ hdirect =>
    rw [grantReads, if_pos hdirect] at hprog
    cases hprog
  | start | refused | creating | notCreated | notGranted | writing | notWritten | notDelivered =>
    cases hprog

theorem provisioned_returned (h : Run answers (provisionStorage options) store c)
    {result : ProvisionResult} (hresult : c.prog = .done (.ok result)) : ∃ created,
    result = options.result created ∧
    (created = true ↔ (options.create, .ok) ∈ c.said) ∧
    (result.policyApplied = true ↔ (options.grant, .ok) ∈ c.said) ∧
    (options.write, .ok) ∈ c.said ∧
    (options.delivery = .direct → (options.check, .ok) ∈ c.said) := by
  have hstage := stage_of_reaches h.said
  rw [hresult] at hstage
  obtain ⟨created, opened, rfl, hopened, hsaid⟩ := hstage.finished
  obtain ⟨hcreated, hgranted⟩ := hopened.said
  refine ⟨created, rfl, ?_⟩
  rw [hcreated, hgranted]
  rcases hsaid with ⟨hsaid, hexternal⟩ | hsaid
  · rw [hsaid]
    refine ⟨?_, ?_, by simp, fun hdirect => absurd hdirect hexternal⟩ <;>
      simp [ProvisionOptions.create, ProvisionOptions.grant, ProvisionOptions.write]
  · rw [hsaid]
    refine ⟨?_, ?_, by simp, fun _ => by simp⟩ <;>
      simp [ProvisionOptions.create, ProvisionOptions.grant, ProvisionOptions.write,
        ProvisionOptions.check]

theorem provisioned_reported (hstore : Relied answers)
    (h : Run answers (provisionStorage options) store c)
    {error : ProvisioningError} (herror : c.prog = .done (.error error)) :
    error.Truthful options c := by
  have hstage := stage_of_reaches h.said
  generalize hsaid : c.said = talk at hstage
  rw [herror] at hstage
  generalize hprog : (.done (.error error) : Provisioning) = prog at hstage
  cases hstage with
  | refused reply _ _ =>
    cases hprog
    refine ⟨⟨reply, hsaid, rfl⟩, fun e he => ?_⟩
    -- Nothing was said but the question, and that changes nothing.
    have hmem := Config.mem_said he
    rw [hsaid, List.mem_singleton] at hmem
    have hcommand : e.command = .headBucket options.bucket := congrArg Prod.fst hmem
    have hanswers := h.answered he
    rw [hcommand] at hanswers
    exact hstore.head hanswers
  | notCreated reply hmissing status name =>
    cases hprog
    exact ⟨reply, hmissing, hsaid⟩
  | notGranted reply hmissing status name =>
    cases hprog
    exact ⟨reply, hmissing, hsaid⟩
  | notWritten created opened hopened status name =>
    cases hprog
    exact ⟨created, opened, hopened, hsaid⟩
  | notDelivered created opened hopened hdirect reply failure hreply =>
    cases hprog
    exact ⟨opened, reply, hopened, hreply, hdirect, hsaid⟩
  | granting reply _ hdirect =>
    rw [grantReads, if_pos hdirect] at hprog
    cases hprog
  | written created opened _ =>
    rw [verify] at hprog
    split at hprog <;> cases hprog
  | start | creating | writing | checked => cases hprog

/-- **Provisioning**, whatever the store answers and whatever others do to it. -/
theorem provisioned (hstore : Relied answers) (hcreates : CreatesNew answers)
    (h : Run answers (provisionStorage options) store c) : Provisioned options c := by
  refine ⟨fun e he bucket hne => ?_, fun e he found hfound => ?_,
    fun before e after hhistory hgrant => provisioned_policy hcreates h hhistory hgrant,
    fun reply hreply hpresent e he => ?_, fun result hresult => provisioned_returned h hresult,
    fun error herror => provisioned_reported hstore h herror⟩
  · obtain ⟨talk, hdue⟩ := run_mem h he
    refine hstore.frame (h.answered he) fun heq => hne ?_
    generalize e.command = command at hdue heq
    cases hdue with
    | head | create _ _ | grant _ _ _ | write _ _ _ => exact (Option.some.inj heq).symm
    | check => cases heq
  · obtain ⟨talk, hdue⟩ := run_mem h he
    obtain ⟨after, hafter, hobjects, hpolicy⟩ := hstore.kept (h.answered he) hfound
    refine ⟨after, hafter, fun key hkey => hobjects key fun object heq => hkey ?_,
      fun hne => hpolicy fun policy heq => hne ?_⟩
    · generalize e.command = command at hdue heq
      cases hdue with
      | write _ _ _ =>
        injection heq with _ hkey _
        exact hkey.symm
      | head | create _ _ | grant _ _ _ | check _ _ _ _ => cases heq
    · generalize e.command = command at hdue heq
      cases hdue with
      | grant _ _ _ => rfl
      | head | create _ _ | write _ _ _ | check _ _ _ _ => cases heq
  · obtain ⟨hcreate, hgrant⟩ := present_due h hreply hpresent he
    refine ⟨hcreate, hgrant, fun found hfound hobject => ?_⟩
    obtain ⟨talk, hdue⟩ := run_mem h he
    have hanswers := h.answered he
    generalize e.command = command at hdue hanswers hcreate hgrant
    cases hdue with
    | head => exact hstore.head hanswers
    | create _ _ => exact absurd rfl hcreate
    | grant _ _ _ => exact absurd rfl hgrant
    | write _ _ _ => exact hstore.again hanswers hfound hobject
    | check _ _ _ _ => exact hstore.fetch hanswers

end Runs

/-! ## A store -/

/-- What a command does to the simplest store there is, where it takes effect. -/
def Applies (store : ObjectStore) : Command → ObjectStore → Prop
  | .headBucket bucket, left => store bucket ≠ none ∧ left = store
  | .createBucket bucket _, left =>
    store bucket = none ∧ left = Function.update store bucket (some .new)
  | .putBucketPolicy bucket policy, left => ∃ found, store bucket = some found ∧
    left = Function.update store bucket (some { found with policy := some policy })
  | .putObject bucket key object, left => ∃ found, store bucket = some found ∧
    left = Function.update store bucket
      (some { found with objects := Function.update found.objects key (some object) })
  | .fetch _ _, left => left = store

/-- A store that does what it says it did, and may have done what it says failed. -/
def Simple : Answering := fun store command reply left =>
  Applies store command left ∨ reply ≠ .ok ∧ left = store

theorem Applies.frame {store left : ObjectStore} {command : Command} {bucket : String}
    (h : Applies store command left) (hne : command.bucket ≠ some bucket) :
    left bucket = store bucket := by
  cases command with
  | headBucket b => rw [h.2]
  | createBucket b _ =>
    rw [h.2, Function.update_of_ne]
    exact fun heq => hne (congrArg some heq.symm)
  | putBucketPolicy b policy =>
    obtain ⟨found, -, rfl⟩ := h
    exact Function.update_of_ne (fun heq => hne (congrArg some heq.symm)) _ _
  | putObject b key object =>
    obtain ⟨found, -, rfl⟩ := h
    exact Function.update_of_ne (fun heq => hne (congrArg some heq.symm)) _ _
  | fetch _ _ => rw [show left = store from h]

theorem simple_relied : Relied Simple where
  frame h hne := h.elim (fun happlies => happlies.frame hne) fun hfailed => by rw [hfailed.2]
  head h := h.elim (fun happlies => happlies.2) fun hfailed => hfailed.2
  fetch h := h.elim id fun hfailed => hfailed.2
  create h hfound := h.elim
    (fun happlies => absurd (happlies.1.symm.trans hfound) nofun)
    fun hfailed => by rw [hfailed.2, hfound]
  grant h hfound := by
    rcases h with ⟨found, hthere, rfl⟩ | ⟨-, rfl⟩
    · obtain rfl := Option.some.inj (hthere.symm.trans hfound)
      exact .inr (Function.update_self _ _ _)
    · exact .inl hfound
  write h hfound := by
    rcases h with ⟨found, hthere, rfl⟩ | ⟨-, rfl⟩
    · obtain rfl := Option.some.inj (hthere.symm.trans hfound)
      exact .inr (Function.update_self _ _ _)
    · exact .inl hfound

theorem simple_createsNew : CreatesNew Simple := by
  rintro store bucket location left (⟨hnone, rfl⟩ | ⟨hne, -⟩)
  · exact ⟨hnone, Function.update_self _ _ _⟩
  · exact absurd rfl hne

def plainBucket : ProvisionOptions where
  bucket := "presslabz-media"
  region := "eu-central-1"
  endpoint := "http://localhost:9000"
  delivery := .direct
  checkUrl := "http://localhost:9000/presslabz-media/media/delivery-check.txt"

/-- A run over an empty store, with everything going well, grants the policy and is as described. -/
theorem provisioned_empty : ∃ c, Run Simple (provisionStorage plainBucket) (fun _ => none) c ∧
    (∃ result, c.prog = .done (.ok result) ∧ result.policyApplied = true) ∧
    Provisioned plainBucket c := by
  have hstart : Run Simple (provisionStorage plainBucket) (fun _ => none)
      ⟨provisionStorage plainBucket, fun _ => none, []⟩ := .refl
  have hhead := @Run.exchange _ _ _ _ _ _ _ _ _ _ _ hstart (.failed (some 404) "NotFound")
    (fun _ => none) (.inr ⟨nofun, rfl⟩)
  have hcreate := @Run.exchange _ _ _ _ _ _ _ _ _ _ _ hhead .ok _ (.inl ⟨rfl, rfl⟩)
  have hgrant := @Run.exchange _ _ _ _ _ _ _ _ _ _ _ hcreate .ok _
    (.inl ⟨_, Function.update_self _ _ _, rfl⟩)
  have hwrite := @Run.exchange _ _ _ _ _ _ _ _ _ _ _ hgrant .ok _
    (.inl ⟨_, Function.update_self _ _ _, rfl⟩)
  have hcheck := @Run.exchange _ _ _ _ _ _ _ _ _ _ _ hwrite .ok _ (.inl rfl)
  exact ⟨_, hcheck, ⟨_, rfl, rfl⟩, provisioned simple_relied simple_createsNew hcheck⟩

end PressLabz.StorageProvisioning
