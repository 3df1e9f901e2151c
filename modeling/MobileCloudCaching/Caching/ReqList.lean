import MobileCloudCaching.Caching.Types
import MobileCloudCaching.Library.FirstMatch

/-!
# The list of counted fragment requests (`cReqList.c`)
-/

namespace MobileCloudCaching.Caching

open FirstMatch

/-- The test of `find_creq`. -/
def ReqList.isFor (fileId fragId : U32) (c : ReqList) : Bool :=
  c.fileId == fileId && c.fragId == fragId

def findCreq (l : List ReqList) (fileId fragId : U32) : Option ReqList :=
  l.find? (ReqList.isFor fileId fragId)

/-- `reachThreshold` of a listed entry; the comparison is one of unsigned numbers. -/
def reachThreshold (p : Params) (count : U32) : Bool :=
  !decide (count < (p.threshold - 1).toBitVec)

/-- The counter of a fragment, through the pointer that `find_creq` or `create_creq` returned. -/
def setCount (fileId fragId : U32) (f : U32 → U32) (d : Daemon) : Daemon :=
  { d with
    crlist := modifyFirst (ReqList.isFor fileId fragId) (fun c => { c with count := f c.count })
      d.crlist }

def updateCount (fileId fragId : U32) : Daemon → Daemon := setCount fileId fragId (· + 1)

def flushCount (fileId fragId : U32) : Daemon → Daemon := setCount fileId fragId fun _ => 0

/-- `create_creq`, its allocation having succeeded. -/
def createCreq (fileId fragId : U32) (d : Daemon) : Daemon :=
  { d with crlist := { fileId := fileId, fragId := fragId, count := 0 } :: d.crlist }

/-- The counter of a fragment, `none` when it is not listed. -/
def counter (l : List ReqList) (k : U32 × U32) : Option U32 :=
  (findCreq l k.1 k.2).map ReqList.count

end MobileCloudCaching.Caching
