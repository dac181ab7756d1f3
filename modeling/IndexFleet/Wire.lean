import IndexFleet.Text.Entity

namespace IndexFleet.Wire

def updatePath : String := "/solr/update"

-- Rows are separated by tabs, which are taken as quotes too, so that quotes count as text.
def rowsPath : String := "/solr/update?separator=%09&encapsulator=%09"

-- The same for a file that the server reads by itself; its path follows.
def streamFilePath : String :=
  "/solr/update/csv?separator=%09&encapsulator=%09&stream.contentType=text/plain;charset=utf-8&stream.file="

def pingPath : String := "/solr/admin/ping"

def xmlType : String := "text/xml; charset=UTF-8"
def rowsType : String := "text/csv; charset=UTF-8"

def deleteAllBody : String := "<delete><query>*:*</query></delete>"
def commitBody : String := "<commit/>"
def softCommitBody : String := "<commit softCommit=\"true\"/>"
def optimizeBody : String := "<optimize/>"

def deleteBody (query : String) : String :=
  s!"<delete><query>{Text.Entity.escape query}</query></delete>"

end IndexFleet.Wire
