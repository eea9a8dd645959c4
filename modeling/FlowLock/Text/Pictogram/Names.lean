/-!
# Names of pictograms

Entries with blanks between them.  An entry is a name and, after an equals sign,
the code points of the pictogram in hexadecimal digits, with a plus sign between two of
them.  The names are in order, and the first letter of an entry counts the characters that
its name has in common with the name before it: none for `a`, one for `b`.  A capital letter
in what is left of the name stands for a piece that comes up often.  A tilde before the code
points says that the pictogram comes in the skin tones too; `j` is the joiner `200d`, `v` the
selector `fe0f`, three digits follow a `1f`, and two capital letters stand for a flag.
-/

namespace FlowLock.Text

/-- The pieces of names that the capital letters stand for. -/
def pictogramPieces : List String :=
  ["ing", "_face", "_button", "with_", "er", "an", "ar", "le", "on", "in", "_b", "_c", "ight",
   "al", "st", "ic", "ed", "at", "o’clock", "_m", "or", "_s", "en", "is", "la", "ow"]

def pictogramTable : String :=
  "a+1=44d a-1=44e a100=4af b234=522 bO_pYceTQN=947 a2nd_pYceTQN=948 a3rd_pYceTQN=949 a8bNl=3b1
    a__1=44e aa=170 bC_(blood_type)=170 bb=18e cC_(blood_type)=18e cacus=9ee cc=524 dd=521
    bccept=251 bdhesiveKFdage=a79 cmXsiI_tPkets=39f cult=~9d1 bEiN_tramway=6a1 bfghFiOF=AF
    birplFe=2708 i_GrivN=6ec oA=6ec jdepGture=6eb blGmLlock=23f0 cbFia=AL cembP=2697 cgEia=DZ
    ciW=47d fTIOE=47e bmbulFce=691 cEPF_footbNl=3c8 jsamoa=AS cphUa=3fa bnchU=2693 cdUra=AD
    cgel=47c er=4a2 fVymbol=4a2 doY=AO dry=620 fB=620 k_DhUns=47f duilY=AI fshQ=627 jB=627
    ct=41c dGctPa=AQ dWnaKGs=4f6 digua_&KGbuda=AG cxiousB_DsweR=630 bppH=34e bquGius=2652
    brgWtJa=AR cies=2648 cmWia=AM crZKackwGd=25c0 gdoubH_dZn=23ec nup=23eb iwn=2b07 kVmNl=53d
    gfUwGd=25b6 gheadA_dZn=2935 oup=2934 gHft=2b05 hZE_Hft=2199 mrM=2198 grM=27a1 l_hook=21aa
    gup=2b06 i_dZn=2195 jsmNl=53c ipE_Hft=2196 mrM=2197 fsLlockwXe=503 iountEclockwXe=504 ct=3a8
    dPulRQ_lUry=69b eO_paHtte=3a8 cuba=AW bscWsiI_XlFd=AC ctIXhQ=632 kB=632 bthHtPVhoe=45f
    cm=3e7 dVign=3e7 comVymbol=269b buOrNia=AU fia=AT cto_rPkshaw=6fa emobiH=697 bvocado=951
    bxe=a93 bzEbaijF=AZ ab=171 bC_(blood_type)=171 baby=~476 e_Fgel=~47c fbottH=37c fchPk=424
    fsymbol=6bc cck=519 e_GrZ=519 ehFd_Jdex_poJtA_dZn=~447 yHft=~448 yrM=~449 yup=~446 dI=953
    cdgE=9a1 dmJtI=3f8 j_racquet_FdVhuttHcock=3f8 cgel=96f dgageLYim=6c4 duetteKread=956
    chamas=BS draJ=BH clFceVcaH=2696 dd=9b2 eTF=468+j+9b2 fwomF=469+j+9b2 dHtVhoes=a70 eoI=388
    ftKox_DbNlot=5f3 qcheck=2611 cmboo=38d cnFa=34c dgbFg=203c eYdesh=BD djo=a95 dk=3e6
    crLhGt=4ca dbados=BB eE=488 g_poH=488 csebNl=26be dket=9fa gbNl=3c0 ct=987 dh=6c0 etub=6c1
    dtEy=50b beach_DumbrelY=3d6 dmAB_DsmilA_eyes=601 dr=43b eB=43b edQ_pEsI=~9d4 dtA_heGt=493
    cd=6cf ce=41d dr=37a eTug=37a es=37b dtH=41e cgJnE=530 clGus=BY dgium=BE dize=BZ dl=514
    e_DsYsh=515 ehopKell=6ce cnJ=BJ dto=371 fKox=371 crmuda=BM cvEageKox=9c3 bhutF=BT bPycH=6b2
    giO=6b4 cke=6b2 dJi=459 clHdLap=9e2 cohazGd=2623 jVign=2623 crd=426 dthday=382 iLake=382
    bYckLircH=26ab m_fU_recUd=23fa gfYg=3f4 gheGt=5a4 gjokE=0cf glGgeVquGe=2b1b
    heft__poJtA_doubH_triFgH_DvEtPNKG=23ee gmQium-smNlVquGe=25fe mVmNlVquGe=25fe oquGe=25fc
    gnib=2712 grM__poJtA_doubH_triFgH_DvEtPNKG=23ed wtriFgH_DdoubH_vEtPNKG=23ef gsmNlVquGe=25aa
    hquGeC=532 nfU_Oop=23f9 cId-hairQTF=~471+j+2642+v npEsI=~471 nwomF=~471+j+2640+v dssom=33c
    dwfXh=421 cueKook=4d8 fcG=699 gircH=535 fheGt=499 fsquGe=7e6 dsh=60a boG=417 dt=26f5
    clivia=BO cmb=4a3 cne=9b4 cok=4d6 emGk=516 i_tabs=4d1 es=4da dm=4a5 dt=462
    csnia_&_hEzegovJa=BA ctswFa=BW dtH_DpoppALUk=37e cuquet=490 dvet_XlFd=BV cw=647 d_Fd_GrZ=3f9
    dl_DspoI=963 eA=3b3 cxA_glove=94a cy=~466 braJ=9e0 dzil=BR cead=35e eO-feQA=~931 cPk=9f1
    dde_Dveil=~470 ege_R_nM=309 defcase=4bc fs=a72 dghtC=506 dtXh_JdiF_oceF_tEritUy=IO
    ivirgJ_XlFds=VG coccoli=966 dkW_heGt=494 dom=9f9 dwnLircH=7e4 gheGt=90e gsquGe=7eb cunei=BN
    bug=41b cildALIOructiI=3d7 clb=4a1 dgGia=BG dHt_traJ=685 gtraJ_frIt=685 mside=684
    crkJa_faso=BF drito=32f dundi=BI cs=68c d_Oop=68f dOop=68f dt_JVilhouette=464
    es_JVilhouette=465 cttE=9c8 gfly=98b acactus=335 cke=370 cHndG=4c6 dlTe_hFd=~919 eA=4f2
    cmbodia=KH del=42b era=4f7 g_DfYsh=4f8 foI=CM dpA=3d5 cnada=CA ery_XlFds=IC dcE=264b ddH=56f
    ey=36c dnQ_food=96b doe=6f6 cpe_vEde=CV ditN_abcd=520 drPUn=2651 cr=697 dd_fiHKox=5c3
    fJdex=4c7 k_dividEs=5c2 dibbeF_nethElFds=BQ dousel_hUse=3a0 dp_OreamE=38f drot=955 cOH=3f0
    ct=431 d2=408 dB=431 i_DteGs_of_joy=639 owryVmiH=63c cymF_XlFds=KY bd=4bf
    bWtrN_afrPF_republP=CF cuta_&TelilY=EA bhad=TD dJs=26d3 er=a91 drt=4b9 f_decreasA=4c9
    gJcreasA=4c8 q_DyW=4b9 gDdZnwGds_trWd=4c9 lupwGds_trWd=4c8 ceckEQ_fYg=3c1 dese_wQge=9c0
    dquEQ_fYg=3c1 drries=352 fyKlossom=338 dss_pawn=265f etnut=330 cPkW=414 dld=~9d2
    frWLrossA=6b8 ee=CL dna=CN dpmunk=43f cocolReKG=36b dpOPks=962 criOmas_XlFd=CX ktree=384
    curch=26ea bigGette=6ac cnema=3a6 crcHdT=24c2 eus_tWt=3aa ctyVunrXe=307 iset=306 escape=3d9
    j_R_dusk=306 bl=191 cC=191 camp=5dc dp=44f epE=3ac hKoGd=3ac fA_hFds=~44f dssPNKuildA=3db
    cJkAKeETugs=37b jgYsses=942 dpboGd=4cb epEtI_XlFd=CP cock1=550 g0=559 h30=565 g1=55a h30=566
    g2=55b h30=567 g30=55c f2=551 g30=55d f3=552 g30=55e f4=553 g30=55f f5=554 g30=560 f6=555
    g30=561 f7=556 g30=562 f8=557 g30=563 f9=558 g30=564 fwXe_vEtPN_GrZs=503 dsQKook=4d5
    hlock_Dkey=510 hmailbox_DlZEQ_fYg=4ea uraXQ_fYg=4eb humbrelY=302 dud=2601 f_DlMnA=329
    u_Fd_raJ=26c8 lraJ=327 lsnZ=328 ltUnado=32a dwnB=921 cubVuit=2663 es=2663 dtchKag=45d
    boR=9e5 ccktail=378 i_gYss=378 dIut=965 es_(keelA)_XlFds=1e8+1e8 cffee=2615 eJ=26b0 cldB=976
    fsweR=630 dlXiI=4a5 dombia=CO cmet=2604 dUos=KM dpass=9ed eressiI=5dc eutE=4bb i_dXk=4bd
    jmouse=5b1 cnfettiKNl=38a eoundQ=616 kB=616 eusQ=615 iB=615 dgo_-KrazzavilH=1e8+1ec
    ikJshasa=1e8+1e9 erRulRiIs=3297 dOructiI=6a7 m_wUkE=~477 dtrol_knobs=39b dvWiWce_OUe=3ea
    cok_XlFds=CK eQ_rPe=35a eie=36a fng=373 dl=192 eC=192 cp=46e dyrM=a9 crn=33d cOa_rPa=CR
    cuch_Fd_Ymp=6cb dntEclockwXe_GrZsC=504 dpH=46b g_DheGt=491 rTFTF=468+j+2764+v+j+468
    swomFTF=469+j+2764+v+j+468 ywomF=469+j+2764+v+j+469 gkXs=48f cw=42e d2=404 dB=42e
    dboy_hRB=920 brab=980 dyI=58d cQitLGd=4b3 dscWtToI=319 cPket=997 hKR_FdKNl=3cf igame=3cf
    coRia=HR dcodiH=40a dXsFt=950 dssTGk=274c kC=274e fQ_fAEs=~91e jYgs=38c iswUds=2694 dwn=451
    cy=622 dALRB=63f hface=622 dONKNl=52e buba=CU ccumbE=952 cp_DOraw=964 dcake=9c1 did=498
    craçao=CW dlA_OIe=94c ey-hairQTF=468+j+9b1 nwomF=469+j+9b1 f_hair=9b1 gloop=27b0
    drWcy_exchFge=4b1 ey=35b f_rPe=35b cOGd=36e eoms=6c3 ct_ofTeR=969 byclIe=300 cprus=CY
    bzechia=1e8+1ff bôte_d’ivoire=CI adaggE=5e1 g_knife=5e1 cncE=483 gs=46f dgo=361
    crkVkJ_tIe=3ff gungYsses=576 dt=3af csh=4a8 eA_away=4a8 cte=4c5 beaf_pEsI=9cf
    cciduous_tree=333 cE=98c clivEy_truck=69a cnmGk=DK cpGtmWt_OUe=3ec crelPt_house=3da
    oKuildA=3da csEt=3dc g_XlFd=3dd dktopLomputE=5a5 ctective=~575 biamIdVhape_Da_dot_Jside=4a0
    juit=2666 iDa_dot=4a0 hs=2666 cego_gGcia=DG cmC=505 crect_hit=3af csappoJtQ=61e mB=61e
    nrelievQ=625 cvATask=93f cya_Ymp=a94 czzy=4ab fB=635 bjibouti=DJ bna=9ec bo_not_littE=6af
    cg=436 d2=415 dB=436 cllG=4b5 gKFknote=4b5 es=38e dphJ=42c cmJPa=DM in_republP=DO cU=6aa
    cttQVix-poJtQ_OG=52f cubHLurly_loop=27bf hexcYmRiITGk=203c hvEtPNKG=23f8 dghnut=369 cve=54a
    e_of_peace=54a cwn-Hft_GrZ=2199 frM_GrZ=2198 e_GrZ=2b07 ecaOB_DsweR=613 ewGdsC=53d bragI=409
    gB=432 cess=457 comQGyLamel=42a dolAB=924 dp_ofKlood=a78 eHt=4a7 cum=941 buck=986 cmplA=95f
    bvd=4c0 ae-mail=4e7 b_Tail=4e7 bagH=985 cr=~442 d_ofLUn=33d hrPe=33e eDheGA_aid=9bb
    dth_afrPa=30d hmEPas=30e hsia=30f bcuadU=EC bgg=373 dplFt=346 cypt=EG bM=38+v+20e3
    f-poJtQ_OG=2734 gspokQ_aOEXk=2733 gthirty=563 f_S=557 gpoJtQKYck_OG=2734 gspokQ_aOEXk=2733
    bjectC=23cf gsymbol=23cf blVNvadU=SV cectrP_plug=50c dphFt=418 dvW-thirty=566 g_S=55a
    cf=~9dd bmail=2709 cojiTodifiE_fitzpRrPk_type__1__2=3fb zk_type__3=3fc zk_type__4=3fd
    zk_type__5=3fe zk_type__6=3ff bnd=51a d_GrZ=51a
    cglFd=3f4+e0067+e0062+e0065+e006e+e0067+e007f cvelope=2709 i_DGrZ=4e9 bquRUiN_guJea=GQ
    britrea=ER bOIia=EE bthiopia=ET buro=4b6 eKFknote=4b6 epeFLaOH=3f0 jpoO_offPe=3e4 juniI=EU
    bvEgreW_tree=332 bwe=411 bxcYmRiI=2757 lTGk=2757 mqueOiITGk=2049 cplodA_head=92f
    dressiIHss=611 oB=611 bye=441 d_JVpeechKubbH=441+v+j+5e8+v dgYsses=453 ds=440
    afaceKlZA_a_kXs=618 fsavUA_food=60b gcreamA_J_feG=631 fvomitA=92e fDhFd_ovETouth=92d
    lead-bFdage=915 o_KFdage=915 kmQPNTask=637 lIocH=9d0 kopWTouth=62e kraXQ_eyebrZ=928
    lollA_eyes=644 kOeam_from_nose=624 lymbols_ITouth=92c kteGs_of_joy=602 lhEmometE=912
    lIgue=61b joutTouth=636 epunch=44a dtUy=3ed ciry=~9da cYfel=9c6 dklFd_XlFds=FK dHn_Haf=342
    cmily=46a gTFKoy=468+j+466 oKoy=468+j+466+j+466 lgirl=468+j+467 pKoy=468+j+467+j+466
    qgirl=468+j+467+j+467 lmFKoy=468+j+468+j+466 sKoy=468+j+468+j+466+j+466
    pgirl=468+j+468+j+467 tKoy=468+j+468+j+467+j+466 ugirl=468+j+468+j+467+j+467
    lwomFKoy=468+j+469+j+466 uKoy=468+j+469+j+466+j+466 rgirl=468+j+469+j+467
    vKoy=468+j+469+j+467+j+466 wgirl=468+j+469+j+467+j+467 hwomFKoy=469+j+466
    qKoy=469+j+466+j+466 ngirl=469+j+467 rKoy=469+j+467+j+466 sgirl=469+j+467+j+467
    nwomFKoy=469+j+469+j+466 wKoy=469+j+469+j+466+j+466 tgirl=469+j+469+j+467
    xKoy=469+j+469+j+467+j+466 ygirl=469+j+469+j+467+j+467 croe_XlFds=FO cO-fUwGdC=23e9
    e_dZnC=23ec ffUwGd=23e9 frevEseC=23ea fupC=23eb cx=4e0 dTachJe=4e0 beGful=628 hB=628 cet=43e
    cmaHVign=2640 crrX_wheel=3a1 ey=26f4 bield_hockey=3d1 m_OPk_FdKNl=3d1 cji=FJ cHLabJet=5c4
    ffoldE=4c1 dm_frames=39e fprojectU=4fd cnlFd=FI cre=525 e_WgJe=692 gxtAuXhE=9ef ecrackE=9e8
    ewUks=386 dO_quGtEToI=313 sB=31b twithB=31b csh=41f eLake=365 j_Dswirl=365 eA_poH=3a3
    m_Fd_fXh=3a3 dt=270a cve=35+v+20e3 e-thirty=560 e_S=554 bYg_fULocos__XlFds=1e8+1e8
    lngo___KrazzavilH=1e8+1ec skJshasa=1e8+1e9 kzech_republP=1e8+1ff jguJea_KXsau=1ec+1fc
    jhIg_kIg=1ed+1f0 jjapF=1ef+1f5 jmacau=1f2+1f4 kyFmG=1f2+1f2 jtimU__HOe=1f9+1f1
    kurkey=1f9+1f7 fJ_hoH=26f3 es=38f dmAo=9a9 dshlM=526 dtVhoe=97f ceur-de-lX=269c
    f__de__lX=269c dxQKPeps=~4aa cippE=42c coppy_dXk=4be dwE_pYyALGds=3b4 cushQ=633 hB=633
    cyA_dXc=94f hsaucE=6f8 bog=32b dgy=301 cldQ_hFds=~64f cot=9b6 ebNl=3c8 eprJts=463
    crk_Fd_knife=374 o_DplRe=37d dtuneLookie=960 cuntaJ=26f2 i_pW=58b dr=34+v+20e3 e-thirty=55f
    e_HafLlovE=340 fS=553 cxB=98a brame_DpPture=5bc fd_pPture=5bc dnce=FR cee=193 eC=193
    dnch_fries=35f hguiFa=GF hpolynesia=PF hsouthEn_tEritUies=TF ciQVhrimp=364 es=35f cog=438
    eB=438 dnt-facAKabyLhPk=425 dwnA=626 iB=2639 n_DopWTouth=626 buel_pump=26fd epump=26fd
    cllToI=315 jB=31d kwithB=31d cnEN_urn=26b1 agabI=GA cmbia=GM de_die=3b2 crlP=9c4 beG=2699
    cm=48e d_OIe=48e dJi=264a cnie=9de cUgia=GE crmFy=DE bhFa=GH coO=47b bibrNtG=GI cft=381
    e_heGt=49d craffe=992 dl=~467 bYss_ofTilk=95b fes=453 cobeVhZA_amEPas=30e psia-auOrNia=30f
    oeurope-afrPa=30d gDmEidiFs=310 dves=9e4 dwA_OG=31f boN_net=945 dt=410 cblJ=47a cggHs=97d
    clf=26f3 eE=3cc crilY=98d braduRiILap=393 dpes=347 ceece=GR en_appH=34f gbook=4d7 gcircH=7e2
    gheGt=49a gsNad=957 hquGe=7e9 flFd=GL dnada=GD dy_excYmRiI=2755 fqueOiI=2754 cimacA=62c
    jB=62c dn=601 enA=600 iLRB=63a r_DsmilA_eyes=638 jface=600 n_Dbig_eyes=603 tsmilA_eyes=604
    uweR=605 jsquJtAB=606 cZA_heGt=497 buadeloupe=GP dm=GU drd=~482 fsmF=482 dtemNa=GT cEnsey=GG
    cide_dog=9ae dnea=GN g-bXsau=1ec+1fc dtG=3b8 cn=52b cyFa=GY ahaircut=487 dti=HT cmburgE=354
    dmE=528 g_Fd_pPk=2692 lwrWch=6e0 dOE=439 hB=439 cnd=270b e_DfAEsVpYyQ=~590 ebag=45c
    eshake=91d dkey=4a9 ctchQLhPk=425 fALhPk=423 beadphIe=3a7 js=3a7 dr-no-evilTIkey=649
    e_no_evil=649 ed_&TcdINd_XlFds=HM et=2764 f_decURiI=49f geyes=60d kLR=63b gsuit=2665
    gDGrZ=498 lribbI=49d fbeR=493 fpulse=497 fs=2665 dvyLheckTGk=2714 gdivXiIVign=2797
    hollGVign=4b2 gexcYmRiITGk=2757 gheGt_excYmRiI=2763 xTGk_UnamWt=2763 glGgeLircH=2b55
    gmJusVign=2796 hultiplPRiI_x=2716 gplusVign=2795 cdgehog=994 clPoptE=681 dmVymbol=2388
    eet_DwhiteLross=26d1 crb=33f bibXcus=33a cgh-heeHdVhoe=460 fspeQ_traJ=684 eKrMness=506
    fheel=460 fvoltage=26a1 ckAKoot=97e cndu_tempH=6d5 cppopotamus=99b bocho=52a cH=573
    cnduras=HN dey_pot=36f fbee=41d dg_kIgVGLhJa=1ed+1f0 crizItN_traffP_lM=6a5 dse=434 fB=434
    gracA=~3c7 cspitN=3e5 ctKevEage=2615 edog=32d eface=975 epeppE=336 esprAs=2668 del=3e8
    dsprAs=2668 curgYss=231b j_dIe=231b kflZAVFd=23f3 knot_dIe=23f3 dse=3e0 fKuildAs=3d8
    gDgGdW=3e1 fs=3d8 buggAB=917 cndrQ_poJts=4af dgGy=HU cshQ=62f gB=62f aPe=9ca dLream=368
    ehockey=3d2 k_OPk_Fd_puck=3d2 eskRe=26f8 dcream=366 dlFd=IS bd=194 cC=194
    ceograph_advFtage=250 bmp=47f bnbox_tray=4e5 ccomA_Wvelope=4e8 cdex_poJtA_up=~261d dia=IN
    dIesia=ID cfJity=267e dUmRiI=2139 l_desk_pEsI=481 msource=2139 cnocWt=607 cput_lRJ_HttEs=524
    nZEcase=521 muppEcase=520 gnumbEs=522 gsymbols=523 ctErobFg=2049 bphIe=4f1 brF=IR dq=IQ
    celFd=IE bsH_ofTF=IM crael=IL btNy=IT bzakaya_lFtEn=3ee ajack-o-lFtEn=383 e_o_lFtEn=383
    cmaPa=JM cpF=5fe fese_acceptabHC=251 kpplPRiIC=238 jbGgaJC=250 jcaOH=3ef kIgrRulRiIsC=3297
    jdXcountC=239 kolls=38e jfree_ofLhGgeC=21a jgoblJ=47a jhEeC=201 jmIthly_amountC=237
    jno_vacFcyC=235 lt_free_ofLhGgeC=236 jogre=479 kpW_fUKusJessC=23a jpassA_gradeC=234
    koO_offPe=3e3 krohibitQC=232 jresEvQC=22f jsecretC=3299 lrvPeLhGgeC=202 kymbol_fUKegJnE=530
    jvacFcyC=233 beFs=456 crsey=JE bigsaw=9e9 bokE=0cf crdF=JO cy=602 dLR=639 dOPk=579
    akaaba=54b cngGoo=998 czakhOF=KZ bWya=KE cy=511 dboGd=2328 dcap_#=23+v+20e3 h*=2a+v+20e3
    h0=30+v+20e3 h1=31+v+20e3 i0=51f h2=32+v+20e3 h3=33+v+20e3 h4=34+v+20e3 h5=35+v+20e3
    h6=36+v+20e3 h7=37+v+20e3 h8=38+v+20e3 h9=39+v+20e3 haOEXk=2a+20e3 hdigit_eM=38+20e3
    nfive=35+20e3 oour=34+20e3 nnJe=39+20e3 nIe=31+20e3 nsevW=37+20e3 oix=36+20e3 nthree=33+20e3
    owo=32+20e3 nzEo=30+20e3 hnumbEVign=23+20e3 bPkVcootE=6f4 cmIo=458 cribRi=KI css=48b
    eTFTF=468+j+2764+v+j+48b+j+468 hrk=48b fwomFTF=469+j+2764+v+j+48b+j+468
    lwomF=469+j+2764+v+j+48b+j+469 eA=617 hLR=63d lB=63d jlosQ_eyes=61a iface=617
    m_DclosQ_eyes=61a ssmilA_eyes=619 iheGt=618 ismilA_eyes=619 ctchW_knife=52a de=a81
    cwi_fruit=95d bnife=52a boNa=428 cko=201 csovo=XK buwait=KW byrgyzOF=KG aYbLoR=97c del=3f7
    ccrosse=94d cdyKeetH=41e cntEn=3ee cos=LA cptopLomputE=4bb crgeKlueLircH=535 ldiamId=537
    gUFge_diamId=536 cO_quGtEToI=317 rB=31c swithB=31c ftrackC=23ee ctJLross=271d dvia=LV
    cughA=606 beaf_fluttEA_J_wJd=343 ey_greW=96c dves=343 cbFI=LB cdgE=4d2 cft-facA_fiO=~91b
    frM_GrZ=2194 e_GrZ=2b05 kLurvA_rM=21aa fluggage=6c5 frM_GrZ=2194 fspeechKubbH=5e8
    ewGds_GrZ_Dhook=21a9 cg=9b5 cmI=34b co=264c dpGd=406 csotho=LS cvelVlidE=39a bibEia=LR
    dra=264e dya=LY cechtWOeJ=LI cghtKulb=4a1 grail=688 gskJ_tIe=3fb cnk=517 eQ_papEclips=587
    cIB=981 cps=444 etPk=484 cthuFia=LT dtE_JKJVign=6ae czGd=98e bYma=999 bobOE=99e cck=512
    e_DJk_pW=50f eQ=512 g_Dkey=510 mpW=50f domotive=682 cllipop=36d cop=27bf ctiIKottH=9f4
    cudVound=50a elyLryAB=62d espeakE=4e2 cve-you_geOure=~91f e_hotel=3e9 fHttE=48c
    cwKrMness=505 dE_HftKNlpoJt_pW=58a lcrayI=58d lfountaJ_pW=58b lpaJtbrush=58c buggage=9f3
    cxembourg=LU byAB=925 am=24c2 bacauVGLhJa=1f2+1f4 dQIia=MK cdagascG=MG cg=50d d_rM=50e
    de=~9d9 dnet=9f2 eifyA_gYss_tiltQ_Hft=50d yrM=50e chjIg=004 h_rQ_dragI=004 cilbox=4eb
    hLlosQ=4ea iDmail=4ec nnoTail=4ed cYwi=MW eysia=MY ddives=MV deVign=2642 di=ML dta=MT
    cn=~468 d_Fd_womF_holdA_hFds=46b frtiO=~468+j+3a8 fOrIaut=~468+j+680 ebikA=~6b4+j+2642+v
    founcAKNl=~26f9+v+j+2642+v gwA=~647+j+2642+v ecGtwheelA=~938+j+2642+v flimbA=~9d7+j+2642+v
    fIOructiI_wUkE=~477+j+2642+v gok=~468+j+373 edFcA=~57a fetective=~575+v+j+2642+v
    eelf=~9dd+j+2642+v efacepNmA=~926+j+2642+v htUy_wUkE=~468+j+3ed giry=~9da+j+2642+v
    grmE=~468+j+33e firefME=~468+j+692 frZnA=~64d+j+2642+v egWie=9de+j+2642+v
    gOurA_no=~645+j+2642+v ook=~646+j+2642+v gttA_haircut=~487+j+2642+v mmassage=~486+j+2642+v
    folfA=~3cc+v+j+2642+v fuGd=~482+j+2642+v eheNth_wUkE=~468+j+2695+v eJKusJessVuit_HvitRA=574
    hlotus_positiI=~9d8+j+2642+v hmFuN_wheelchair=468+j+9bd iotUizQ_wheelchair=468+j+9bc
    hOeamy_room=~9d6+j+2642+v iuit_HvitRA=~574 htuxQo=~935 ejudge=~468+j+2696+v
    ggglA=~939+j+2642+v eliftA_weMs=~3cb+v+j+2642+v emage=~9d9+j+2642+v fechFP=~468+j+527
    fountaJKikA=~6b5+j+2642+v eoffPe_wUkE=~468+j+4bc epilot=~468+j+2708+v
    fYyA_hFdbNl=~93e+j+2642+v mwRE_polo=~93d+j+2642+v folPe_offPE=~46e+j+2642+v
    gutA=~64e+j+2642+v eraXA_hFd=~64b+j+2642+v fZAKoR=~6a3+j+2642+v funnA=~3c3+j+2642+v
    esciWtiO=~468+j+52c fhruggA=~937+j+2642+v fAE=~468+j+3a4 ftudWt=~468+j+393
    furfA=~3c4+j+2642+v fwimmA=~3ca+j+2642+v eteachE=~468+j+3eb gchnologiO=~468+j+4bb
    fippA_hFd=~481+j+2642+v evampire=~9db+j+2642+v ewNkA=~6b6+j+2642+v feGA_turbF=~473+j+2642+v
    fithLhJeseLap=~472 jgua_piTao=472 jprobALFe=468+j+9af jturbF=473 ezombie=9df+j+2642+v
    dgo=96d dsVhoe=45e dtelpieceLlock=570 duN_wheelchair=9bd d’sVhoe=45e cp_of_japF=5fe
    dH_Haf=341 crshNl_XlFds=MH dtiN_Gts_unifUm=94b fnique=MQ csk=637 dsage=486 cte=9c9
    curitFia=MR gius=MU cyotte=YT beR_IKIe=356 cchFPN_Gm=9be lHg=9bf cdPNVymbol=2695
    eum_dGkVkJ_tIe=3fe hlMVkJ_tIe=3fc hskJ_tIe=3fd cga=4e3 ephIe=4e3 clI=348 cmo=4dd
    cn_Dbunny_eGs=46f+j+2642+v freOlA=93c+j+2642+v dUah=54e h_DnJeKrFches=54e ds=6b9
    d’s_room=6b9 crmaid=~9dc+j+2640+v fn=~9dc+j+2642+v dpEsI=~9dc ctro=687 cxPo=MX bProbe=9a0
    fnesia=FM fphIe=3a4 fscope=52c cddH_fAE=~595 clitGyTQN=396 dky_way=30c cnibus=690 edXc=4bd
    boai=5ff cbiH_phIe=4f1 m_off=4f4 nDGrZ=4f2 cldova=MD cnaco=MC dey-mouthB=911 f_TouthB=911
    gbag=4b0 gDwAs=4b8 fbag=4b0 dgolia=MN dkey=412 gB=435 dUail=69d dtWegro=ME esErR=MS cI=314
    eLake=96e fviewALEemIy=391 crocco=MA dtGKoGd=393 csque=54c fito=99f ctUKoR=6e5 gscootE=6f5
    fcycH=3cd fizQ_wheelchair=9bc fway=6e3 cunt_fuji=5fb faJ=26f0 iKPycliO=6b5 jcabHway=6a0
    jrailway=69e dse=42d f2=401 fB=42d dth=444 cvieLamEa=3a5 cyai=5ff czambique=MZ brs.LYus=~936
    buscH=4aa dhroom=344 dPN_keyboGd=3b9 inote=3b5 ms=3b6 iscUe=3bc cte=507 edVpeakE=507
    byFmG_(burma)=1f2+1f2 anailLGe=485 fpolXh=~485 cmeKadge=4db dibia=NA ctiIN_pGk=3de curu=NR
    dseRQB=922 czG_amuHt=9ff becktie=454 cgRiveVquGQLrossTGk=274e cpN=NP crdB=913 cthElFds=NL
    cutrNB=610 cw=195 dC=195 ecaHdIia=NC emoI=311 iB=31a jwithB=31a ezeNFd=NZ dspapE=4f0
    cxt_trackC=23ed bg=196 cC=196 bPGagua=NI cgE=NE fia=NG dht_DOGs=303 cne=39+v+20e3
    e-thirty=564 e_S=558 cue=NU boKell=515 ePycHs=6b3 dWtry=26d4 iVign=6ab dgood=645 dlittEA=6af
    dmobiH_phIes=4f5 futh=636 dIe_undE_eMeW=51e dpQeOriFs=6b7 dsmokA=6ad cn-potabH_wRE=6b1
    d__potabH_wRE=6b1 crfolk_XlFd=NF dth_kUea=KP fEnTGiFa_XlFds=MP dway=NO cse=~443 ctebook=4d3
    i_DdecURiveLovE=4d4 es=3b6 but_FdKolt=529 ao=2b55 b2=17e bC_(blood_type)=17e bceF=30a
    ctopus=419 bdW=362 bffPe=3e2 gKuildA=3e2 bgre=479 bil_drum=6e2 bk=197 cC=197 dhFd=~44c
    dwomF=646 bld_key=5dd emF=~474 ewomF=~475 dE_adult=~9d3 gmF=474 gwomF=475 bm=549 cVymbol=549
    cF=OM bn=51b c!_GrZ=51b ccomA_automobiH=698 jbus=68d jfiO=~44a jpolPeLG=694 jtaxi=696
    ce=31+v+20e3 d-pieceVwimsuit=a71 ethirty=55c d_S=550 ciI=9c5 bpWKook=4d6 ffiH_foldE=4c2
    fhFds=~450 fmailbox_DlZEQ_fYg=4ed sraXQ_fYg=4ec gouth=62e chiuchus=26ce ctPN_dXk=4bf
    brFgeKook=4d9 hcircH=7e0 hheGt=9e1 hsquGe=7e7 futF=9a7 cthodoxLross=2626 bttE=9a6
    butbox_tray=4e4 bwl=989 bx=402 byOE=9aa apC=17f backage=4e6 cge_facA_up=4c4 fDcurl=4c3
    er=4df cJtbrush=58c ckiOF=PK cYu=PW deOJiF_tEritUies=PS dm_tree=334 es_up_togethE=~932
    cnama=PA dcakes=95e ddaB=43c cpEclip=4ce dua_new_guJea=PG craguay=PY dkA=17f drot=99c
    dt_NtEnRiITGk=303d elyVunny=26c5 ey_poppE=389 fAB=973 cssWgEVhip=6f3 epUtLItrol=6c2
    cuseC=23f8 cw_prJts=43e beaceVymbol=262e eh=351 eock=99a dnuts=95c dr=350 cn=58a dcil=4dd
    g2=270f dguJ=427 dsive=614 hB=614 copH_holdA_hFds=9d1+j+91d+j+9d1 hDbunny_eGs=46f ireOlA=93c
    crfUmA_Gts=3ad dsevEe=623 iAB=623 eIKikA=~6b4 iouncAKNl=~26f9 jwA=~647 hcGtwheelA=~938
    ilimbA=~9d7 hfacepNmA=~926 iWcA=93a irZnA=~64d hgeOurA_no=~645 rok=~646 jttA_haircut=~487
    pmassage=~486 iolfA=~3cc hJKQ=~6cc klotus_positiI=~9d8 kOeamy_room=~9d6 hjugglA=~939
    hkneelA=9ce hliftA_weMs=~3cb hmountaJKikA=~6b5 hpYyA_hFdbNl=~93e pwRE_polo=~93d ioutA=~64e
    hraXA_hFd=~64b iZAKoR=~6a3 iunnA=~3c3 hshruggA=~937 itFdA=9cd iurfA=~3c4 iwimmA=~3ca
    htakAKRh=~6c0 iippA_hFd=~481 hwNkA=~6b6 ieGA_turbF=~473 iithKNl=26f9 nlId_hair=471
    mpoutAB=64e du=PE ctri_dXh=9eb bhilippJes=PH cIe=260e bPk=26cf ce=967 cg=437 d2=416 dB=437
    enose=43d cH_of_poo=4a9 dl=48a cnchA_hFd=90f de_decURiI=38d eappH=34d dg_pIg=3d3
    crRe_fYg=3f4+j+2620+v csces=2653 dtol=52b ctcairn_XlFds=PN czza=355 bYce_of_wUship=6d0
    dyC=25b6 fU_pauseC=23ef ceadAB=97a boJt_dZn=447 gHft=448 grM=449 gup=261d i_2=446 clFd=PL
    dPeLG=693 k_lM=6a8 hoffPE=~46e codH=429 dl_8KNl=3b1 dp=4a9 cpcUn=37f crtugN=PT cO_offPe=3e3
    eN_hUn=4ef ebox=4ee ct_of_food=372 dabH_wRE=6b0 eto=954 cuch=45d dltry_Hg=357 dnd=4b7
    fKFknote=4b7 dtALR=63e lB=63e iface=621 bray=64f eEKeads=4ff cegnFt_womF=~930 dtzel=968
    cJce=~934 gss=~478 etE=5a8 cobALFe=9af dhibitQ=6ab buEto_rPo=PR cnch=44a crpHLircH=7e3
    hheGt=49c hsquGe=7ea dse=45b cshpJ=4cc ct_littE_J_its_pYce=6ae aqRG=QA bueOiI=2753 iTGk=2753
    arabbit=430 g2=407 gB=430 cccoI=99d dehUse=40e dALG=3ce hmotUcycH=3cd cdio=4fb fC=518
    factive=2622 lVign=2622 cge=621 cilwayLG=683 itrack=6e4 dnbZ=308 h_fYg=3f3+v+j+308
    dsQKack_of_hFd=~91a hfiO=~270a hhFd=~270b l_DfAEsVpYyQ=590 rpGtKetweWTiddH_Fd_rA_fAEs=596
    ls=64c eA_hFd=64b ms=~64c cm=40f dW=35c ct=400 czU=a92 beceipt=9fe dUdC=23fa dycH=267b
    gAVymbol=267b cd-hairQTF=468+j+9b0 lwomF=469+j+9b0 d_appH=34e ecG=697 fircH=534 eWvelope=9e7
    ehair=9b0 feGt=2764 epapE_lFtEn=3ee esquGe=7e5 etriFgH_poJtQ_dZn=53b vup=53a
    cgiIN_JdPRU_a=1e6 tb=1e7 tc=1e8 td=1e9 te=1ea tf=1eb tg=1ec th=1ed ti=1ee tj=1ef tk=1f0
    tl=1f1 tm=1f2 tn=1f3 to=1f4 tp=1f5 tq=1f6 tr=1f7 ts=1f8 uymbol_HttE_a=1e6 z_HttEK=1e7
    z_HttEL=1e8 z_HttE_d=1e9 z_HttE_e=1ea z_HttE_f=1eb z_HttE_g=1ec z_HttE_h=1ed z_HttE_i=1ee
    z_HttE_j=1ef z_HttE_k=1f0 z_HttE_l=1f1 z_HttET=1f2 z_HttE_n=1f3 z_HttE_o=1f4 z_HttE_p=1f5
    z_HttE_q=1f6 z_HttE_r=1f7 z_HttEV=1f8 z_HttE_t=1f9 z_HttE_u=1fa z_HttE_v=1fb z_HttE_w=1fc
    z_HttE_x=1fd z_HttE_y=1fe z_HttE_z=1ff tt=1f9 tu=1fa tv=1fb tw=1fc tx=1fd ty=1fe tz=1ff
    eOEQ=ae cYxQ=263a dievQ=60c iB=60c cmJdE_ribbI=397 cpeR=501 gC=501 hIe=502 hsAHC=502
    cscue_wUkE’s_helmet=26d1 dtroom=6bb cvEseC=25c0 hd_hFd_DmiddH_fAE_extWdQ=595 dolvA_heGts=49e
    cwJd=23ea bhJocEos=98f bibbI=380 cce=35a eKNl=359 fcrackE=358 fscWe=391 cght-facA_fiO=~91c
    f_FgEKubbH=5ef hrrZ=27a1 lLurvA_dZn=2935 uHft=21a9 uup=2934 cng=48d eQ_plFet=a90
    boaOQVweet_potRo=360 cbot=916 fB=916 ccket=680 cll_of_papE=9fb eQ-up_newspapE=5de
    g__up_newspapE=5de frLoaOE=3a2 eA_I_the_floU_YughA=923 cmFia=RO coOE=413 cse=339 ette=3f5
    ctRA_lM=6a8 cund_pushpJ=4cd cwboR=6a3 bugby_footbNl=3c9 cnnE=3c3 eA=3c3 hVhirt=3bd
    n_Dsash=3bd koe=45f cssia=RU bwFda=RW béuniI=RE asa=202 cdKut_relievQB=625 cfety_pJ=9f7
    hveO=9ba cgittGius=2650 cilboR=26f5 cke=376 clt=9c2 cmoa=WS cnTGJo=SM ddN=461 ewPh=96a
    dta=385 fLYus=~385 cri=97b ctellite=4e1 j_FtWna=4e1 dXfiQ=606 cudi_Gabia=SA dropod=995
    cxophIe=3b7 bcaHs=2696 drf=9e3 chool=3eb gKackpack=392 hsRchel=392 cXsUs=2702 cUpio=264f
    hn=982 gus=264f dtlFd=3f4+e0067+e0062+e0073+e0063+e0074+e007f cream=631 gLR=640 doll=4dc
    beR=4ba ccret=3299 ce-no-evilTIkey=648 d_no_evil=648 ddlA=331 clfie=~933 cnegN=SN crbia=RS
    dvPe_dog=415+j+9ba cvW=37+v+20e3 f-thirty=562 f_S=556 cychelHs=SC bhNlZ_pF_of_food=958
    dmrock=2618 drk=988 dvQ_Pe=367 ceaf_of_rPe=33e dep=411 dll=41a cield=6e1 dntoVhrJe=26e9
    dp=6a2 drt=455 dt=4a9 coe=45e dotA_OG=320 dppAKags=6cd jcGt=6d2 drtcake=370 fs=a73 dwE=6bf
    crimp=990 cuffH_tracksC=500 dshAB=92b biEra_HIe=SL cgn_of_the_hUns=~918 eN_OrWgth=4f6
    cngapUe=SG dtTaGtW=SX cx=36+v+20e3 d-thirty=561 d_S=555 epoJtQ_OG=52f bkReboGd=6f9 ci=3bf
    dE=26f7 ds=3bf cull=480 f_FdLrossbIes=2620 dnk=9a8 bHd=6f7 depA=634 i_accommodRiI=6cc
    jface=634 fy=62a gB=62a duth_UVpy=575 cMly_frZnAB=641 jsmilAB=642 cotTachJe=3b0 eh=9a5
    dvakia=SK eWia=SI bmNl_airplFe=6e9 gblue_diamId=539 gUFge_diamId=538 grQ_triFgH=53a
    s_dZn=53b ciH=604 fLR=638 fy=603 gLR=63a eALRB_DheGt-eyes=63b iface=263a m_D3_heGts=970
    shNo=607 teGt-eyes=60d tUns=608 ssmilA_eyes=60a tungYsses=60e iimp=608 drk=60f fLR=63c
    fAB=60f cokA=6ac bnail=40c dke=40d ceezAB=927 cZ-cappQTountaJ=3d4 eLappQTountaJ=3d4
    eboGdE=~3c2 efYke=2744 emF=2603 h_withoutVnZ=26c4 boap=9fc cb=62d cccE=26bd gKNl=26bd
    dks=9e6 cft_PeLream=366 ebNl=94e clomI_XlFds=SB cmNia=SO cI=51c e_GrZ=51c cs=198 dC=198
    cund=509 dth_afrPa=ZA ggeUgia_&VouthVFdwPh_XlFds=GS gkUea=KR gsudF=SS bpace_JvadE=47e
    ddeVuit=2660 fs=2660 dghetti=35d dJ=ES drkH=2747 hr=387 hs=2728 gA_heGt=496
    ceak-no-evilTIkey=64a f_no_evil=64a fE=508 h_high_volume=50a ilZ_volume=508
    imQium_volume=509 fA_head=5e3 n_JVilhouette=5e3 dechKNloI=4ac edboR=6a4 cidE=577 g_web=578
    drNLaHndG=5d3 p_pad=5d3 hnote_pad=5d2 lpad=5d2 hshell=41a cIge=9fd dI=944
    drt_utility_vehPH=699 fsTQN=3c5 dutA_whaH=433 bquid=991 entAB_DtIgue=61d bri_lFka=LK
    bt.KGthéHmy=BL eheHna=SH ekitts_&_nevX=KN elucia=LC emGtJ=MF epiEre_&TiquelI=PM
    evJcWt_&_grWadJes=VC cadium=3df dr=2b50 e-Oruck=929 e2=31f e_FdLrescWt=262a fof_david=2721
    es=320 dtiI=689 eue_of_libEty=5fd ceam_locomotive=682 fAKZl=35c dthoscope=a7a dw=372
    copC=23f9 fsign=6d1 ewRch=23f1 craM_rulE=4cf ewbEry=353 cuck_out_tIgue=61b qLlosQ_eyes=61d
    rwJkA_eye=61c ddioTProphIe=399 dffQ_flRbread=959 budF=SD cn=2600 dKehJdLloud=26c5
    llGgeLloud=325 lraJLloud=326 lsmNlLloud=324 ewithB=31e dflZE=33b dgYsses=60e dny=2600
    drXe=305 h_ovETountaJs=304 dset=307 cpEhEo=9b8 fvilYJ=9b9 crfE=3c4 dJame=SR cshi=363
    dpWsiI_railway=69f bvNbGd_&_jFTayW=SJ bwF=9a2 dzilFd=SZ ceR=613 f_dropHts=4a6 ks=4a6
    gsmiH=605 ddW=SE det_potRo=360 cimmE=3ca dtzElFd=CH bymbols=523 cnagogue=54d cria=SY
    enge=489 bão_tomé_&_príncipe=ST at-rex=996 cshirt=455 babH_tWnX_paddH_FdKNl=3d3 cco=32e
    cda=389 ciwF=TW cjikiOF=TJ ckeoutKox=961 cnabRa_tree=38b dgEJe=34a dzFia=TZ curus=2649
    cxi=695 bea=375 dcup_without_hFdH=375 dr-offLaHndG=4c6 cddyKeG=9f8 cHphIe=260e j_receivE=4de
    escope=52d evXiI=4fa cn=51f d-thirty=565 d_S=559 dnX=3be dt=26fa cO_tube=9ea bhailFd=TH
    cEmometE=321 cJkAB=914 coughtKNloI=4ad cread=9f5 ee=33+v+20e3 f-thirty=55e fCTouse=5b1
    gS=552 cumbs_dZn=~44e hup=~44d gdZn=44e gup=44d dndELloud_Fd_raJ=26c8 bPket=3ab cgE=42f
    f2=405 fB=42f cmELlock=23f2 dU-HOe=1f9+1f1 crQB=62b bm=2122 bogo=TG ciHt=6bd ckeYu=TK
    dyo_tZE=5fc cmRo=345 cnga=TO eue=445 colbox=9f0 dth=9b7 cp=51d d_GrZ=51d ehR=3a9 dhR=3a9
    crnado=32a brackbNl=5b2 etU=69c ddeTGk=2122 dffP_lM=6a5 dJ=68b f2=686 dm=68a eLG=68b
    ciFgulG_fYg=6a9 p_I_poO=6a9 lrulE=4d0 ddWt=531 h_embHm=531 dnidad_&_tobago=TT dOF_daLunha=TA
    dumph=624 colHybus=68e dphy=3c6 ePN_drJk=379 jfXh=420 cuck=69a dmpet=3ba bshirt=455
    bulip=337 cmblE_gYss=943 cnXia=TN crkey=983 emWiOF=TM es_&LaPos_XlFds=TC dtH=422 cvNu=TV
    bv=4fa bwelve-thirty=567 g_S=55b ciOQ_rMwGds_GrZs=500 co=32+v+20e3 d-humpLamel=42b
    ethirty=55d d_heGts=495 emW_holdA_hFds=46c eS=551 ewomW_holdA_hFds=46d au.s._outlyA_XlFds=UM
    fvirgJ_XlFds=VI b5272=239 c408=234 c5b6=23a b6307=22f c708=237 e9=236 ce80=235 b7121=21a
    c533=238 c981=232 ca7a=233 bgFda=UG bkraJe=UA bmbrelY=2602 i_I_ground=26f1 jDraJ_drops=2614
    bnamusQ=612 iB=612 cdEage=51e cPUnB=984 dtQ_Gab_emirRes=AE hkAdom=GB hnRiIs=1fa+1f3 hORes=US
    clock=513 gQ=513 bp=199 c!C=199 c-dZn_GrZ=2195 dHft_GrZ=2196 drM_GrZ=2197 c_GrZ=2b06
    cside-dZnB=643 g__dZnB=643 cwGdsC=53c bruguay=UY bzbekiOF=UZ av=270c bampire=~9db cnuRu=VU
    ctPFLity=VA bWezueY=VE crtPN_traffP_lM=6a6 bhs=4fc bibrRiITode=4f3 cctUy_hFd=~270c
    cdeoLamEa=4f9 ggame=3ae fcassette=4fc cetnam=VN colJ=3bb crgo=264d bolcFo=30b dHybNl=3d0
    bs=19a cC=19a bulcFVNute=~596 awaffH=9c7 cHs=3f4+e0067+e0062+e0077+e006c+e0073+e007f dkA=6b6
    dlX_&_futuna=WF cnALrescWtToI=318 hgibbousToI=316 crnA=26a0 cOebasket=5d1 ctch=231a
    dEKuffNo=403 gcloset=6be gwave=30a fmelI=349 cve=44b dAKYck_fYg=3f4 hhFd=~44b hwhite_fYg=3f3
    dy_dash=3030 cxALrescWtToI=312 hgibbousToI=314 bc=6be beGy=629 fLRB=640 gface=629 cddA=492
    cM_liftE=3cb cOEnVahGa=EH bhaH=433 f2=40b ceel_of_dhGma=2638 fchair=267f kVymbol=267f
    cite-hairQTF=468+j+9b3 nwomF=469+j+9b3 fLheckTGk=2705 hircH=26aa gexcYmRiITGk=2755 gfYg=3f3
    iZE=4ae hrZnAB=2639 ghair=9b3 heGt=90d jvyLheckTGk=2705 glGgeVquGe=2b1c
    gmQium-smNlVquGe=25fd mVmNlVquGe=25fd oquGe=25fb otG=2b50 gqueOiITGk=2754 gsmNlVquGe=25ab
    hquGeC=533 hunKehJdLloud=325 w_DraJ=326 kDsmNlLloud=324 biltQ_flZE=940 cndKlZAB=32c
    fchime=390 fface=32c de_gYss=377 dk=609 eAB=609 m_DtIgue=61c bolf=43a eB=43a cmF=~469
    f_dFcA=~483 gDheadscGf=~9d5 fsLlothes=45a hhR=452 f’sKoot=462 iclothes=45a ihR=452 isFdN=461
    dW_Dbunny_eGs=46f+j+2640+v hreOlA=93c+j+2640+v fs=6ba f’s_room=6ba cozyB=974 crldTap=5fa
    driQ=61f hB=61f brappQ_gift=381 cWch=527 citA_hFd=~270d ax=274c ayGn=9f6 cwnAB=971
    bellZLircH=7e1 hheGt=49b hsquGe=7e8 cmW=YE cn=4b4 dKFknote=4b4 bJ_yFg=262f bo-yo=a80 bum=60b
    azambia=ZM cnyB=92a cp=26a1 bebra=993 cro=30+v+20e3 bimbabwe=ZW cppE-mouthB=910 g_TouthB=910
    bombie=9df bzz=4a4 aålFd_XlFds=AX"

end FlowLock.Text
