import Sst.Reg.State
import Sst.Lib.Transition

/-!
# The registration server

* `Database.regKeywords`, `Database.delete`, `Database.insert`: the records enter and leave the
  tables.
* `doInsert1`, `doInsert2`, `doLookup`, `doSearch`: the four requests.
* `RegServer.step`, `regServer`: requests, timeouts of records and their deletions.

A dangling pointer or a failed assertion of the code is `none`.
-/

namespace Sst.Reg

open Symbolic Transition

variable (pf : Platform)

/-! ## Records -/

/-- The keywords of a record. -/
def RegRecord.keywords (rec : RegRecord) : List Text := (RegInfo.decode rec.info).keywords pf

namespace Database

/-- `RegRecord::regKeywords`. -/
def regKeywords (db : Database) (p : Ptr) (rec : RegRecord) (insert : Bool) : Database :=
  { db with kwhash :=
    if insert then db.kwhash.addAll (rec.keywords pf) p
    else db.kwhash.dropAll (rec.keywords pf) p }

/-- The destructor of `RegRecord`. -/
def delete (db : Database) (p : Ptr) : Option Database :=
  (db.heap p).bind fun rec =>
    if db.idhash.lookup rec.id = some p then
      some ({ db with
        heap := Function.update db.heap p none
        doomed := db.doomed.erase p
        idhash := db.idhash.erase rec.id
        allrecords := db.allrecords.erase p }.regKeywords pf p rec false)
    else none

/-- Delete a record with this identifier. -/
def replace (db : Database) (id : Ident) : Option Database :=
  match db.idhash.lookup id with
  | none => some db
  | some old => db.delete pf old

/-- The constructor of `RegRecord`. -/
def insert (db : Database) (rec : RegRecord) : Option Database :=
  (db.replace pf rec.id).map fun db =>
    { db with
      heap := Function.update db.heap db.next (some rec)
      next := db.next + 1
      idhash := db.idhash.insert rec.id db.next
      allrecords := Insert.insert db.next db.allrecords }.regKeywords pf db.next rec true

end Database

namespace RegServer

/-- Send a response. -/
def send (s : RegServer) (dst : Endpoint) (resp : Response) : RegServer :=
  { s with log := .sent dst resp :: s.log }

/-! ## Insertion -/

/-- The secret is made when it is needed first. -/
def withSecret (s : RegServer) (r : ℕ) : RegServer := { s with secret := some (s.secret.getD r) }

def calcCookie (s : RegServer) (r : ℕ) (srcep : Endpoint) (idi : Ident) (nhi : Nonce) : Cookie :=
  ⟨s.secret.getD r, srcep, idi, nhi⟩

def replyInsert1 (s : RegServer) (r : ℕ) (srcep : Endpoint) (idi : Ident) (nhi : Nonce) :
    RegServer :=
  (s.withSecret r).send srcep (.insert1 nhi (s.calcCookie r srcep idi nhi))

def doInsert1 (s : RegServer) (r : ℕ) (srcep : Endpoint) (idi : Ident) (nhi : Nonce) : RegServer :=
  if idi = .null then s else s.replyInsert1 r srcep idi nhi

/-- Remember that a client is bad. -/
def reject (s : RegServer) (chal : Cookie) : RegServer :=
  { s with chalhash := s.chalhash.insert chal none, log := .answered chal none :: s.log }

/-- Insert a record and send the response. -/
def accept (s : RegServer) (srcep : Endpoint) (idi : Ident) (nhi : Nonce) (chal : Cookie)
    (info : Bytes) : Option RegServer :=
  (s.toDatabase.insert pf ⟨idi, nhi, srcep, info⟩).map fun db =>
    let resp := .insert2 nhi timeoutSec srcep
    { s with toDatabase := db, log := .answered chal (some resp) :: s.log }.send srcep resp

def doInsert2 (s : RegServer) (r : ℕ) (srcep : Endpoint) (idi : Ident) (ni : Nonce) (chal : Chal)
    (info : Bytes) (key : PubKey) (sig : Signature PubKey SigData) : Option RegServer :=
  if idi = .null then some s
  else
    let nhi := .hash ni
    let cookie := s.calcCookie r srcep idi nhi
    if .cookie cookie ≠ chal then some (s.replyInsert1 r srcep idi nhi)
    else
      let s := s.withSecret r
      match s.chalhash.lookup cookie with
      | some (some resp) => some (s.send srcep resp)
      | some none => some s
      | none =>
        if idi.scheme ≠ rsa160 then some (s.reject cookie)
        else if ¬ idi.setKey key then some (s.reject cookie)
        else if ¬ sig.verify key ⟨idi, ni, chal, info⟩ then some (s.reject cookie)
        else s.accept pf srcep idi nhi cookie info

/-! ## Lookup -/

/-- The record of a caller who is registered with the endpoint and the nonce. -/
def findCaller (s : RegServer) (ep : Endpoint) (idi : Ident) (nhi : Nonce) :
    Option (Option RegRecord) :=
  match s.idhash.lookup idi with
  | none => some none
  | some p => (s.heap p).map fun reci =>
    if ep ≠ reci.ep then none else if nhi ≠ reci.nhi then none else some reci

def replyLookup (s : RegServer) (reci : RegRecord) (notify : Bool) (idr : Ident)
    (recr : Option RegRecord) : RegServer :=
  s.send reci.ep (.lookup notify reci.nhi idr (recr.map fun recr => (recr.ep, recr.info)))

/-- Answer the caller `reci`. -/
def answerLookup (s : RegServer) (reci : RegRecord) (idi idr : Ident) (notify : Bool) :
    Option RegServer :=
  match s.idhash.lookup idr with
  | none => some (s.replyLookup reci false idr none)
  | some q => (s.heap q).map fun recr =>
    let s := s.replyLookup reci false idr (some recr)
    if notify then s.replyLookup recr true idi (some reci) else s

def doLookup (s : RegServer) (srcep : Endpoint) (idi : Ident) (nhi : Nonce) (idr : Ident)
    (notify : Bool) : Option RegServer :=
  if idi = .null then some s
  else (s.findCaller srcep idi nhi).bind fun reci =>
    match reci with
    | none => some s
    | some reci => s.answerLookup reci idi idr notify

/-! ## Search -/

/-- The smallest set found so far, its keyword and its size. -/
structure Min where
  minset : Finset Ptr
  minkw : Text
  mincount : ℕ

/-- One turn of the loop that finds the keyword with fewest matches. -/
def minStep (t : Inverted Text Ptr) (m : Min) (kw : Text) : Min :=
  if (t.items kw).card < m.mincount then ⟨t.items kw, kw, (t.items kw).card⟩ else m

/-- One turn of the loop that narrows the set; the subscript may insert an entry. -/
def narrowStep (minkw : Text) (x : Finset Ptr × Inverted Text Ptr) (kw : Text) :
    Finset Ptr × Inverted Text Ptr :=
  if x.1 = ∅ then x
  else if kw = minkw then x
  else (x.1 ∩ x.2.items kw, x.2.touch kw)

/-- The records that have every keyword, and the table afterwards. -/
def matching (t : Inverted Text Ptr) (kwords : List Text) : Finset Ptr × Inverted Text Ptr :=
  let m := kwords.foldl (minStep t) ⟨∅, [], intMax⟩
  kwords.foldl (narrowStep m.minkw) (m.minset, t)

/-- Answer the caller `reci`. -/
def answerSearch (s : RegServer) (srcep : Endpoint) (nhi : Nonce) (search : Text) :
    Option RegServer :=
  let kwords := pf.split search
  let (minset, kwhash) := matching s.kwhash kwords
  let results := if kwords = [] then s.allrecords else minset
  let nresults := min results.card maxResults
  let complete := decide (results.card ≤ maxResults)
  (((pf.toList results).take nresults).mapM s.heap).map fun recs =>
    { s with kwhash }.send srcep (.search nhi search complete nresults (recs.map RegRecord.id))

def doSearch (s : RegServer) (srcep : Endpoint) (idi : Ident) (nhi : Nonce) (search : Text) :
    Option RegServer :=
  if idi = .null then some s
  else (s.findCaller srcep idi nhi).bind fun reci =>
    match reci with
    | none => some s
    | some _ => s.answerSearch pf srcep nhi search

/-! ## The machine -/

/-- Record a datagram. -/
def arrive (s : RegServer) (src : Endpoint) (req : Request) : RegServer :=
  { s with log := .received src req :: s.log }

/-- `RegServer::udpDispatch`. -/
def udpDispatch (s : RegServer) (r : ℕ) (srcep : Endpoint) : Request → Option RegServer
  | .insert1 idi nhi => some (s.doInsert1 r srcep idi nhi)
  | .insert2 idi ni chal info key sig => s.doInsert2 pf r srcep idi ni chal info key sig
  | .lookup idi nhi idr notify => s.doLookup srcep idi nhi idr notify
  | .search idi nhi search => s.doSearch pf srcep idi nhi search
  | .invalid => some s

end RegServer

/-- A datagram arrives, with a random string for the secret; the timer of a record expires; a
record is deleted by the event loop. -/
inductive Op
  | receive (src : Endpoint) (req : Request) (r : ℕ)
  | timerEvent (p : Ptr)
  | deleteLater (p : Ptr)

/-- Whether an operation can happen: only records have timers, and only those whose timer expired
are deleted later. -/
def RegServer.enabled (s : RegServer) : Op → Bool
  | .receive _ _ _ => true
  | .timerEvent p => (s.heap p).isSome
  | .deleteLater p => p ∈ s.doomed

def RegServer.step (s : RegServer) : Op → Option RegServer
  | .receive src req r => (s.arrive src req).udpDispatch pf r src req
  | .timerEvent p => some { s with doomed := insert p s.doomed }
  | .deleteLater p => (s.delete pf p).map fun db => { s with toDatabase := db }

/-- The server; an operation happens when it can. -/
def regServer : Machine RegServer Op where
  init := .new
  step s op := if s.enabled op then s.step pf op else none

end Sst.Reg
