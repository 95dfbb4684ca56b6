/-!
# Bundled shapes

The shapes that a repository is checked against unless others are given. Violations fail the gate,
warnings only if it is strict.
-/

namespace RepoAudit.Shacl.BundledShapes

/-- The name under which reports list these shapes. -/
def name : String := "quality.ttl"

def text : String := "
@prefix sh: <http://www.w3.org/ns/shacl#> .
@prefix xsd: <http://www.w3.org/2001/XMLSchema#> .
@prefix foaf: <http://xmlns.com/foaf/0.1/> .
@prefix repo: <http://repoq.dev/ns#> .

repo:ProjectShape a sh:NodeShape ;
    sh:targetClass repo:Project ;
    sh:property [
        sh:path repo:name ;
        sh:minCount 1 ;
        sh:maxCount 1 ;
        sh:datatype xsd:string
    ] ;
    sh:property [
        sh:path repo:analyzedAt ;
        sh:maxCount 1 ;
        sh:datatype xsd:dateTime
    ] .

repo:FileShape a sh:NodeShape ;
    sh:targetClass repo:File ;
    sh:property [
        sh:path repo:path ;
        sh:minCount 1 ;
        sh:maxCount 1 ;
        sh:datatype xsd:string ;
        sh:minLength 1
    ] ;
    sh:property [
        sh:path repo:loc ;
        sh:minCount 1 ;
        sh:maxCount 1 ;
        sh:datatype xsd:integer ;
        sh:minInclusive 0
    ] ;
    sh:property [
        sh:path repo:churn ;
        sh:maxCount 1 ;
        sh:minInclusive 0
    ] ;
    sh:property [
        sh:path repo:hotness ;
        sh:minCount 1 ;
        sh:maxCount 1 ;
        sh:datatype xsd:decimal ;
        sh:minInclusive 0 ;
        sh:maxInclusive 1
    ] ;
    sh:property [
        sh:path repo:inModule ;
        sh:minCount 1 ;
        sh:maxCount 1 ;
        sh:class repo:Module
    ] ;
    sh:property [
        sh:path repo:owner ;
        sh:maxCount 1 ;
        sh:class repo:Contributor
    ] .

repo:ModuleShape a sh:NodeShape ;
    sh:targetClass repo:Module ;
    sh:property [
        sh:path repo:name ;
        sh:minCount 1 ;
        sh:maxCount 1
    ] ;
    sh:property [
        sh:path repo:containsFile ;
        sh:minCount 1 ;
        sh:class repo:File
    ] .

repo:ComplexityWarningShape a sh:NodeShape ;
    sh:targetClass repo:File ;
    sh:property [
        sh:path repo:complexity ;
        sh:maxInclusive 30 ;
        sh:severity sh:Warning ;
        sh:message \"Cyclomatic complexity above 30\"
    ] .

repo:ComplexityLimitShape a sh:NodeShape ;
    sh:targetClass repo:File ;
    sh:property [
        sh:path repo:complexity ;
        sh:maxInclusive 100 ;
        sh:message \"Cyclomatic complexity above 100\"
    ] .

repo:MaintainabilityShape a sh:NodeShape ;
    sh:targetClass repo:File ;
    sh:property [
        sh:path repo:maintainability ;
        sh:minInclusive 20 ;
        sh:maxInclusive 100 ;
        sh:severity sh:Warning ;
        sh:message \"Maintainability index below 20\"
    ] .

repo:HotspotShape a sh:NodeShape ;
    sh:targetClass repo:File ;
    sh:property [
        sh:path repo:hotness ;
        sh:maxExclusive 0.8 ;
        sh:severity sh:Info ;
        sh:message \"File is a strong hotspot; consider splitting it\"
    ] .

repo:CommitShape a sh:NodeShape ;
    sh:targetClass repo:Commit ;
    sh:property [
        sh:path repo:sha ;
        sh:minCount 1 ;
        sh:maxCount 1 ;
        sh:pattern \"^[0-9a-f]\x7b7,64\x7d$\"
    ] ;
    sh:property [
        sh:path repo:author ;
        sh:minCount 1 ;
        sh:maxCount 1 ;
        sh:class repo:Contributor
    ] .

repo:ContributorShape a sh:NodeShape ;
    sh:targetClass repo:Contributor ;
    sh:property [
        sh:path foaf:name ;
        sh:minCount 1
    ] .

repo:CouplingShape a sh:NodeShape ;
    sh:targetClass repo:CouplingEdge ;
    sh:property [
        sh:path repo:weight ;
        sh:minCount 1 ;
        sh:maxCount 1 ;
        sh:datatype xsd:integer ;
        sh:minInclusive 1
    ] ;
    sh:property [
        sh:path repo:source ;
        sh:minCount 1 ;
        sh:maxCount 1 ;
        sh:class repo:File
    ] ;
    sh:property [
        sh:path repo:target ;
        sh:minCount 1 ;
        sh:maxCount 1 ;
        sh:class repo:File
    ] .

repo:IssueShape a sh:NodeShape ;
    sh:targetClass repo:Issue ;
    sh:property [
        sh:path repo:issueType ;
        sh:minCount 1 ;
        sh:in ( \"hotspot\" \"todo\" \"dirty_worktree\" \"shacl_violation\" )
    ] ;
    sh:property [
        sh:path repo:severity ;
        sh:minCount 1 ;
        sh:maxCount 1 ;
        sh:in ( \"info\" \"low\" \"medium\" \"high\" \"critical\" )
    ] ;
    sh:property [
        sh:path repo:title ;
        sh:minCount 1 ;
        sh:minLength 1
    ] .
"

end RepoAudit.Shacl.BundledShapes
