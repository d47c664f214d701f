import SuiteLint.Text.CodeRun

/-! Characters that are shown as they are in quoted text. -/
namespace SuiteLint.Text

/-- Characters beyond ASCII without a visible form: controls, formats, private and unassigned code
points, and all separators. -/
def hiddenRuns : List CodeRun :=
  singles [173,757,398,96,140,193,354,32,131,162,37,8,45,38,37,8,3,3,6,32,39,10,4,23,8,3,18,4,54,4,37,8,3,42,
   38,13,56,68,4,24,28,4,14,54,4,24,11,17,4,22,17,29,4,52,4,55,4,46,10,207,189,80,37,16,249,387,64,40,38,58,
   879,237,4,157,273,320,288,1078,16,23,25,154,2823,400,129,8,8,8,8,8,8,8,187,422,240,95,144,30639,49,296,8,
   20488,11,3,782,20,14,370,37,27,20,3,337,527,477,16,8,3,12,16,8,460,43,88,45,32,157,273,16,4,1127,43,531,
   120,171,50,124,16,102,37,8,3,6,290,1208,3,31,723,46,113,95,3,49,3,40,3,38,3,1757,17904,96,155,8,17554,8,3,
   9302,72,16,23,66,15,8,29,5,6,12,1359,1383,27,3,1986,5,3,16,1541,28,3,5,11,29,3,16,8,8,5,18,26,6,534,16,
   2755] ++
  runsBy 1 [(128,32),(728,1),(7,3),(468,1),(51,1),(60,7),(28,3),(7,16),(265,1),(60,1),(102,13),(60,1),(50,1),
   (45,1),(14,4),(32,8),(246,1),(3,1),(33,2),(5,1),(10,1),(3,1),(5,7),(2,3),(9,1),(26,1),(11,3),(3,1),(40,1),
   (8,3),(3,1),(4,2),(2,6),(7,6),(18,9),(58,1),(19,1),(2,14),(5,1),(13,6),(21,1),(3,1),(40,1),(10,1),(3,1),
   (4,6),(4,3),(9,1),(19,9),(10,2),(9,2),(8,2),(3,2),(4,2),(13,3),(6,2),(9,1),(2,5),(2,13),(22,4),(59,1),
   (19,6),(7,1),(2,1),(5,1),(11,6),(68,1),(19,6),(3,5),(8,1),(14,12),(81,3),(17,1),(50,2),(37,1),(8,2),(2,3),
   (18,5),(11,1),(4,11),(59,3),(30,36),(62,1),(15,1),(11,1),(5,31),(110,3),(107,36),(201,4),(2,1),(383,1),
   (15,1),(47,1),(39,1),(15,1),(79,1),(68,1),(33,2),(27,5),(87,1),(7,1),(670,2),(90,6),(23,8),(25,8),(21,11),
   (21,11),(95,1),(11,5),(11,5),(27,5),(90,6),(44,4),(71,9),(45,3),(13,3),(2,2),(43,1),(6,10),(45,3),(27,5),
   (12,2),(63,1),(96,1),(12,5),(11,5),(15,1),(32,48),(78,2),(165,7),(61,2),(16,2),(61,6),(44,1),(12,7),
   (44,4),(535,1),(7,1),(39,1),(7,1),(47,1),(85,1),(27,1),(14,16),(25,7),(48,16),(3,1),(42,2),(34,14),
   (34,14),(141,3),(664,24),(12,20),(1813,1),(383,4),(48,4),(2,1),(57,6),(3,13),(25,8),(191,33),(117,11),
   (215,25),(13,4),(151,1),(104,4),(224,11),(29342,2),(56,8),(349,19),(185,7),(204,4),(11,23),(60,2),(11,5),
   (57,7),(71,7),(13,5),(117,10),(31,2),(91,3),(90,8),(15,1),(11,1),(104,23),(29,9),(7,1),(7,1),(7,8),(77,3),
   (127,1),(11,5),(11173,11),(24,3),(50,3),(2049,6399),(367,1),(107,37),(8,11),(6,4),(167,15),(446,1),(55,6),
   (2,31),(43,5),(77,3),(142,3),(191,2),(7,1),(7,1),(7,1),(4,2),(16,12),(3,1),(79,1),(15,33),(124,4),(4,3),
   (46,2),(103,2),(2,46),(47,129),(30,2),(50,14),(29,3),(37,8),(31,4),(44,4),(69,3),(15,41),(159,1),(11,5),
   (37,3),(37,3),(41,7),(53,10),(79,66),(312,8),(23,9),(9,23),(60,68),(7,1),(50,2),(2,1),(97,7),(10,47),
   (23,4),(34,2),(28,4),(2,63),(57,3),(21,1),(54,4),(43,1),(4,3),(11,6),(10,6),(65,31),(40,3),(13,8),(55,2),
   (30,1),(28,4),(27,6),(5,11),(8,79),(74,54),(52,12),(52,6),(47,7),(11,293),(79,1),(3,77),(41,7),(43,21),
   (27,37),(29,19),(24,8),(79,3),(37,8),(69,12),(26,6),(11,5),(73,7),(40,8),(118,10),(64,64),(43,5),(60,4),
   (11,5),(14,1),(3,1),(51,1),(3,1),(4,1),(2,5),(2,4),(8,1),(8,2),(6,138),(99,29),(73,7),(11,165),(55,1),
   (39,33),(70,10),(11,5),(14,18),(59,5),(11,53),(28,1),(16,3),(24,184),(61,99),(84,11),(9,1),(2,1),(46,1),
   (13,8),(11,69),(9,1),(47,1),(12,26),(73,7),(84,12),(74,262),(71,9),(30,2),(33,1),(38,72),(56,2),(15,7),
   (11,5),(58,6),(11,309),(26,182),(2,14),(51,12),(924,101),(118,10),(197,2635),(100,12),(1072,4048),
   (584,8632),(570,6),(43,3),(93,5),(31,1),(7,9),(71,9),(41,4),(20,687),(92,100),(76,3),(58,6),(18,63),
   (6,10),(3,13),(6137,7),(1239,41),(10,8934),(308,44),(4,16),(5,7),(397,2307),(108,4),(14,2),(10,6),(11,1),
   (5,4703),(47,1),(24,8),(117,59),(247,9),(40,1),(75,7),(113,20),(71,153),(21,11),(88,8),(26,134),(161,1),
   (2,1),(3,1),(99,1),(59,2),(349,1),(293,1),(703,14),(22,1103),(32,224),(26,1),(17,212),(46,2),(15,1),
   (11,3),(3,319),(32,16),(59,4),(2,1247),(230,1),(17,40),(77,3),(11,3),(3,784),(69,75),(62,193),(38,1),
   (22,5),(2,3),(15,1),(15,1),(54,4),(28,51),(3,269),(45,3),(101,11),(16,1),(70,9),(175,55),(30,12),(45,3),
   (10,6),(3,13),(7,153),(985,4),(17,2),(14,2),(117,11),(90,6),(13,3),(2,14),(13,3),(57,7),(11,5),(41,7),
   (31,1),(3,77),(341,11),(15,1),(6,2),(6,2),(8,8),(30,2),(12,4),(7,9),(11,5),(9,7),(8,8),(204,36),(11,1029),
   (42721,31),(4154,6),(223,1),(5763,13),(7474,3102),(543,1505),(4940,716212),(241,196111)] ++
  runsBy 2 [(907,2),(2062,2),(568,2),(172,2),(31,2),(31,2),(912,2),(102,2),(3223,6),(34932,2),(21353,2),
   (5960,2),(49713,2),(6524,2),(14,4),(12,8),(29,2)]

def isPrintable (c : Char) : Bool :=
  if c.toNat < 128 then 32 ≤ c.toNat && c.toNat < 127 else !inRuns hiddenRuns c

end SuiteLint.Text
